import TableQuery.Calendar.Date

/-!
# Moments

A point in time together with the offset of the clock that shows it. Moments are compared as points
in time; the offset decides only how they are written.
-/

namespace TableQuery.Calendar

/-- A point in time, `second` seconds and `nano` nanoseconds after the start of 1970 in UTC, shown
by a clock that is `offset` seconds ahead of UTC. During a leap second `nano` is a billion or more.
-/
structure Moment where
  second : Int
  nano : Nat
  offset : Int
  deriving DecidableEq, Repr

/-- The date and time of day that a clock shows: a day, the second of the day and nanoseconds. -/
structure WallClock where
  day : Int
  secondOfDay : Nat
  nano : Nat

/-- The seconds since the start of 1970 on the same clock. -/
def WallClock.seconds (w : WallClock) : Int :=
  w.day * 86400 + w.secondOfDay

/-- The moment at which a clock with the given offset shows this time, if its date in UTC may be
written. -/
def WallClock.at? (w : WallClock) (offset : Int) : Option Moment :=
  let s := w.seconds - offset
  if inRange (s / 86400) then some ⟨s, w.nano, offset⟩ else none

/-- What a UTC clock shows after the given number of seconds. A leap second is the last of its
minute. -/
def wallClock? (seconds : Int) (nano : Nat) : Option WallClock :=
  let day := seconds / 86400
  let s := (seconds % 86400).toNat
  if inRange day && nano < 2000000000 && (nano < 1000000000 || s % 60 == 59) then
    some ⟨day, s, nano⟩
  else
    none

namespace Moment

/-- Whether `a` is before `b` in time. -/
def before (a b : Moment) : Bool :=
  a.second < b.second || (a.second == b.second && a.nano < b.nano)

/-- Seconds since the start of 1970 as a double, nanoseconds as its fraction. -/
def epoch (m : Moment) : Float :=
  Float.ofInt m.second + Float.ofNat m.nano / 1e9

/-- Digits with zeros in front up to the width. -/
def padded (width n : Nat) : String :=
  let ds := Nat.toDigits 10 n
  String.ofList (List.replicate (width - ds.length) '0' ++ ds)

/-- Years beyond four digits carry a sign. -/
def yearText (y : Int) : String :=
  if 0 ≤ y && y ≤ 9999 then padded 4 y.toNat
  else (if y < 0 then "-" else "+") ++ padded 4 y.natAbs

/-- The fraction of a second with 0, 3, 6 or 9 digits, the fewest that lose nothing. -/
def fractionText (nano : Nat) : String :=
  if nano == 0 then ""
  else if nano % 1000000 == 0 then "." ++ padded 3 (nano / 1000000)
  else if nano % 1000 == 0 then "." ++ padded 6 (nano / 1000)
  else "." ++ padded 9 nano

/-- Hours and minutes of an offset, rounded to the minute. -/
def offsetText (offset : Int) : String :=
  let minutes := (offset.natAbs + 30) / 60
  (if offset < 0 then "-" else "+") ++ padded 2 (minutes / 60) ++ ":" ++ padded 2 (minutes % 60)

/-- The RFC 3339 text. A leap second is written as second 60. -/
def text (m : Moment) : String :=
  let s := m.second + m.offset
  let day := s / 86400
  let t := (s % 86400).toNat
  let leap := m.nano / 1000000000
  yearText (yearOf day) ++ "-" ++ padded 2 (monthDayOf day).1 ++ "-" ++ padded 2 (monthDayOf day).2
    ++ "T" ++ padded 2 (t / 3600) ++ ":" ++ padded 2 (t / 60 % 60) ++ ":"
    ++ padded 2 (t % 60 + leap) ++ fractionText (m.nano % 1000000000) ++ offsetText m.offset

end Moment

end TableQuery.Calendar
