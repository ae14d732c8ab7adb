/-!
# Dates

The proleptic Gregorian calendar. A day is a whole number counted from 1970-01-01, and the functions
here turn years, months, ordinals and ISO weeks into days and back. Weekdays are numbered from
Monday, which is 0.
-/

namespace TableQuery.Calendar

def isLeapYear (y : Int) : Bool :=
  y % 4 == 0 && (y % 100 != 0 || y % 400 == 0)

def daysInYear (y : Int) : Nat :=
  if isLeapYear y then 366 else 365

/-- The lengths of the months of a year. -/
def monthLengths (y : Int) : List Nat :=
  [31, if isLeapYear y then 29 else 28, 31, 30, 31, 30, 31, 31, 30, 31, 30, 31]

/-- The days of the year in front of a month, which is counted from 1. -/
def daysBefore (y : Int) (month : Nat) : Nat :=
  ((monthLengths y).take (month - 1)).foldl (· + ·) 0

/-- The first day of a year. -/
def yearStart (y : Int) : Int :=
  let p := y - 1
  365 * (y - 1970) + (p / 4 - p / 100 + p / 400 - 477)

/-- The day with the given place in its year, counted from 1. -/
def ofOrdinal? (y : Int) (ordinal : Nat) : Option Int :=
  if 1 ≤ ordinal && ordinal ≤ daysInYear y then some (yearStart y + ordinal - 1) else none

/-- The day with the given month and day of the month, both counted from 1. -/
def ofYearMonthDay? (y : Int) (month day : Nat) : Option Int :=
  match month, (monthLengths y)[month - 1]? with
  | 0, _ => none
  | _, none => none
  | _, some length =>
    if 1 ≤ day && day ≤ length then
      some (yearStart y + daysBefore y month + day - 1)
    else
      none

/-- The year that contains a day. The estimate from the mean length of a year is at most one off. -/
def yearOf (n : Int) : Int :=
  let y := 1970 + n * 400 / 146097
  if n < yearStart y then y - 1
  else if yearStart (y + 1) ≤ n then y + 1
  else y

/-- The place of a day in its year, from 1. -/
def ordinalOf (n : Int) : Nat :=
  (n - yearStart (yearOf n)).toNat + 1

/-- Walks through the months to the one that contains the day with `left` days before it. -/
def monthWithin : List Nat → Nat → Nat → Nat × Nat
  | [], month, left => (month, left + 1)
  | length :: rest, month, left =>
    if left < length then (month, left + 1) else monthWithin rest (month + 1) (left - length)

/-- The month and the day of the month of a day, both from 1. -/
def monthDayOf (n : Int) : Nat × Nat :=
  monthWithin (monthLengths (yearOf n)) 1 (ordinalOf n - 1)

/-- The weekday of a day; 1970-01-01 was a Thursday. -/
def weekdayOf (n : Int) : Nat :=
  ((n + 3) % 7).toNat

/-- The quarter of a day, from 1. -/
def quarterOf (n : Int) : Nat :=
  ((monthDayOf n).1 + 2) / 3

/-- The number of the week of the year, where weeks start on `start` and the days before the first
such day are in week 0. -/
def weekOf (start : Nat) (n : Int) : Nat :=
  (ordinalOf n + 6 - (weekdayOf n + 7 - start) % 7) / 7

/-- The Thursday of the Monday-based week of a day; it decides the ISO year. -/
def thursdayOf (n : Int) : Int :=
  n - weekdayOf n + 3

def isoYearOf (n : Int) : Int :=
  yearOf (thursdayOf n)

def isoWeekOf (n : Int) : Nat :=
  (ordinalOf (thursdayOf n) - 1) / 7 + 1

/-- The Monday of the first ISO week of a year, the week of January 4. -/
def isoYearStart (y : Int) : Int :=
  let fourth := yearStart y + 3
  fourth - weekdayOf fourth

/-- The day with the given ISO week and weekday. -/
def ofIsoWeek? (y : Int) (week weekday : Nat) : Option Int :=
  let n := isoYearStart y + 7 * ((week : Int) - 1)
  if 1 ≤ week && n < isoYearStart (y + 1) then some (n + weekday) else none

/-- The day with the given week of the year and weekday, where weeks start on `start`. The day must
lie in that year. -/
def ofWeek? (start : Nat) (y : Int) (week weekday : Nat) : Option Int :=
  let first := yearStart y
  let firstWeek := 1 + (start + 7 - weekdayOf first) % 7
  let ordinal : Int := firstWeek + ((week : Int) - 1) * 7 + ((weekday + 7 - start) % 7 : Nat)
  if week ≤ 53 && 0 < ordinal then ofOrdinal? y ordinal.toNat else none

/-- The years that dates may have. -/
def firstYear : Int := -262143

/-- See `firstYear`. -/
def lastYear : Int := 262142

/-- Whether a day lies in the years that dates may have. -/
def inRange (n : Int) : Bool :=
  yearStart firstYear ≤ n && n < yearStart (lastYear + 1)

end TableQuery.Calendar
