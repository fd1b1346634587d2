/-!
# Dates

A moment is a whole number of milliseconds since the beginning of 1970, in universal time, and a
date is what the Gregorian calendar makes of it.  The calendar is followed to both sides without
end, so there is a year 0 before the year 1, and a year -1 before that.  Moments more than a hundred
million days away from 1970 have no date.

The client shows local time.  Here the time zone is always that of universal time: other zones, and the
hours that are left out or come twice when a zone changes its clocks, are left out.

* `Date.ofDays` — the year, the month and the day of a day number.
* `Moment.date?` — the date of a moment, where it has one.
-/

namespace ChatPreferences

/-- A date with the time of day.  Months and days count from 1, days of the week from Sunday,
which is 0. -/
structure Date where
  year : Int
  month : Nat
  day : Nat
  weekday : Nat
  hour : Nat
  minute : Nat
  second : Nat
  deriving DecidableEq

namespace Date

/-- **The year, the month and the day** of the day that comes `days` days after 1 January 1970.

The count starts anew with 1 March of the year 0.  Then a leap day is the last day of its year, four
hundred years have 146097 days, and the months from March on have their lengths in a pattern of five
months with 153 days. -/
def ofDays (days : Int) : Int × Nat × Nat :=
  let shifted := days + 719468
  let era := shifted / 146097
  let dayOfEra := (shifted % 146097).toNat
  let yearOfEra :=
    (dayOfEra - dayOfEra / 1460 + dayOfEra / 36524 - dayOfEra / 146096) / 365
  let dayOfYear := dayOfEra - (365 * yearOfEra + yearOfEra / 4 - yearOfEra / 100)
  let monthFromMarch := (5 * dayOfYear + 2) / 153
  let day := dayOfYear - (153 * monthFromMarch + 2) / 5 + 1
  let month := if monthFromMarch < 10 then monthFromMarch + 3 else monthFromMarch - 9
  let year := era * 400 + yearOfEra
  (if month ≤ 2 then year + 1 else year, month, day)

example : ofDays 0 = (1970, 1, 1) := by decide
example : ofDays (-1) = (1969, 12, 31) := by decide
example : ofDays 11016 = (2000, 2, 29) := by decide
example : ofDays (-719528) = (0, 1, 1) := by decide

end Date

namespace Moment

/-- The milliseconds of a day. -/
def dayMillis : Nat := 86400000

/-- The greatest distance from 1970 at which there are dates, in milliseconds. -/
def reach : Nat := 100000000 * dayMillis

/-- The date of a moment. -/
def date? (millis : Int) : Option Date :=
  if millis.natAbs ≤ reach then
    let days := millis / dayMillis
    let seconds := (millis % dayMillis).toNat / 1000
    let (year, month, day) := Date.ofDays days
    some {
      year, month, day
      weekday := ((days + 4) % 7).toNat
      hour := seconds / 3600
      minute := seconds / 60 % 60
      second := seconds % 60 }
  else none

end Moment

end ChatPreferences
