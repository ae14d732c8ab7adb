import TableQuery.Calendar.Layout
import TableQuery.Calendar.Moment

/-!
# Fields of a date and time

What reading a text by a layout finds: any of a few dozen fields, each at most once or twice with
the same value. A date, a time of day or a moment is resolved from them if they suffice, and all
other fields must agree with it.
-/

namespace TableQuery.Calendar

/-- The fields found so far. Weekdays are numbered from Monday, which is 0. -/
structure Fields where
  year : Option Int := none
  century : Option Int := none
  yearOfCentury : Option Int := none
  isoYear : Option Int := none
  isoCentury : Option Int := none
  isoYearOfCentury : Option Int := none
  quarter : Option Nat := none
  month : Option Nat := none
  day : Option Nat := none
  dayOfYear : Option Nat := none
  weekFromSunday : Option Nat := none
  weekFromMonday : Option Nat := none
  isoWeek : Option Nat := none
  weekday : Option Nat := none
  half : Option Nat := none
  hourOfHalf : Option Nat := none
  minute : Option Nat := none
  second : Option Nat := none
  nanosecond : Option Nat := none
  timestamp : Option Int := none
  offset : Option Int := none

/-- A field after the value `new` was found: a field found twice must have one value. -/
def settle? {α : Type} [DecidableEq α] (old : Option α) (new : α) : Option (Option α) :=
  match old with
  | none => some (some new)
  | some v => if v = new then some (some v) else none

/-- The number as a natural number if it lies between the bounds. -/
def within? (low high : Nat) (v : Int) : Option Nat :=
  if low ≤ v && v ≤ high then some v.toNat else none

/-- Years and the like must fit into 32 bits. -/
def narrow? (v : Int) : Option Int :=
  if Int32.minValue.toInt ≤ v && v ≤ Int32.maxValue.toInt then some v else none

namespace Fields

def setMonth? (p : Fields) (v : Nat) : Option Fields := do
  return { p with month := ← settle? p.month v }

def setWeekday? (p : Fields) (v : Nat) : Option Fields := do
  return { p with weekday := ← settle? p.weekday v }

def setHalf? (p : Fields) (v : Nat) : Option Fields := do
  return { p with half := ← settle? p.half v }

def setOffset? (p : Fields) (v : Int) : Option Fields := do
  return { p with offset := ← settle? p.offset v }

/-- Stores a number found for a field, if it is in the field's range and agrees with an earlier one.
-/
def set? (p : Fields) (field : NumberField) (v : Int) : Option Fields := do
  match field with
  | .year => return { p with year := ← settle? p.year (← narrow? v) }
  | .century => return { p with century := ← settle? p.century (← within? 0 2147483647 v) }
  | .yearOfCentury =>
    return { p with yearOfCentury := ← settle? p.yearOfCentury (← within? 0 99 v) }
  | .isoYear => return { p with isoYear := ← settle? p.isoYear (← narrow? v) }
  | .isoCentury => return { p with isoCentury := ← settle? p.isoCentury (← within? 0 2147483647 v) }
  | .isoYearOfCentury =>
    return { p with isoYearOfCentury := ← settle? p.isoYearOfCentury (← within? 0 99 v) }
  | .quarter => return { p with quarter := ← settle? p.quarter (← within? 1 4 v) }
  | .month => p.setMonth? (← within? 1 12 v)
  | .day => return { p with day := ← settle? p.day (← within? 1 31 v) }
  | .dayOfYear => return { p with dayOfYear := ← settle? p.dayOfYear (← within? 1 366 v) }
  | .weekFromSunday =>
    return { p with weekFromSunday := ← settle? p.weekFromSunday (← within? 0 53 v) }
  | .weekFromMonday =>
    return { p with weekFromMonday := ← settle? p.weekFromMonday (← within? 0 53 v) }
  | .isoWeek => return { p with isoWeek := ← settle? p.isoWeek (← within? 1 53 v) }
  | .daysFromSunday => p.setWeekday? (((← within? 0 6 v) + 6) % 7)
  | .weekdayNumber => p.setWeekday? ((← within? 1 7 v) - 1)
  | .hour =>
    let h ← within? 0 23 v
    let p ← p.setHalf? (h / 12)
    return { p with hourOfHalf := ← settle? p.hourOfHalf (h % 12) }
  | .hourOfHalf =>
    return { p with hourOfHalf := ← settle? p.hourOfHalf ((← within? 1 12 v) % 12) }
  | .minute => return { p with minute := ← settle? p.minute (← within? 0 59 v) }
  | .second => return { p with second := ← settle? p.second (← within? 0 60 v) }
  | .nanosecond =>
    return { p with nanosecond := ← settle? p.nanosecond (← within? 0 999999999 v) }
  | .timestamp => return { p with timestamp := ← settle? p.timestamp v }

end Fields

/-- Why fields do not yield a date or a time: some are missing, or they contradict each other. -/
inductive Unresolved where
  | missing
  | conflict
  deriving DecidableEq

/-- The value, or a conflict. -/
def orConflict {α : Type} : Option α → Except Unresolved α
  | some a => .ok a
  | none => .error .conflict

/-- The year from a full year, a century and a year of the century. Two digits alone denote the
years 1970 to 2069. -/
def resolveYear : Option Int → Option Int → Option Int → Except Unresolved (Option Int)
  | y, none, none => .ok y
  | some y, q, r =>
    if 0 ≤ y && q.getD (y / 100) == y / 100 && r.getD (y % 100) == y % 100 then .ok (some y)
    else .error .conflict
  | none, some q, some r => (orConflict (narrow? (100 * q + r))).map some
  | none, none, some r => .ok (some (r + if r < 70 then 2000 else 1900))
  | none, some _, none => .error .missing

/-- The century and the year of the century; years before 0 have none. -/
def centuryAgrees (y : Int) (century yearOfCentury : Option Int) : Bool :=
  if 0 ≤ y then century.getD (y / 100) == y / 100 && yearOfCentury.getD (y % 100) == y % 100
  else century.isNone && yearOfCentury.isNone

namespace Fields

def yearMonthDayAgrees (p : Fields) (n : Int) : Bool :=
  let y := yearOf n
  let (month, day) := monthDayOf n
  p.year.getD y == y && centuryAgrees y p.century p.yearOfCentury && p.month.getD month == month
    && p.day.getD day == day

def isoWeekAgrees (p : Fields) (n : Int) : Bool :=
  let y := isoYearOf n
  p.isoYear.getD y == y && centuryAgrees y p.isoCentury p.isoYearOfCentury
    && p.isoWeek.getD (isoWeekOf n) == isoWeekOf n && p.weekday.getD (weekdayOf n) == weekdayOf n

def ordinalAgrees (p : Fields) (n : Int) : Bool :=
  p.dayOfYear.getD (ordinalOf n) == ordinalOf n && p.weekFromSunday.getD (weekOf 6 n) == weekOf 6 n
    && p.weekFromMonday.getD (weekOf 0 n) == weekOf 0 n

/-- The day that the first sufficient set of fields denotes: year, month and day; year and day of
the year; year, week and weekday; ISO year, week and weekday. -/
def someDay (p : Fields) : Except Unresolved Int := do
  let year ← resolveYear p.year p.century p.yearOfCentury
  let isoYear ← resolveYear p.isoYear p.isoCentury p.isoYearOfCentury
  match year, p.month, p.day with
  | some y, some month, some day => orConflict (ofYearMonthDay? y month day)
  | _, _, _ =>
    match year, p.dayOfYear with
    | some y, some ordinal => orConflict (ofOrdinal? y ordinal)
    | _, _ =>
      match year, p.weekFromSunday, p.weekday with
      | some y, some week, some weekday => orConflict (ofWeek? 6 y week weekday)
      | _, _, _ =>
        match year, p.weekFromMonday, p.weekday with
        | some y, some week, some weekday => orConflict (ofWeek? 0 y week weekday)
        | _, _, _ =>
          match isoYear, p.isoWeek, p.weekday with
          | some y, some week, some weekday => orConflict (ofIsoWeek? y week weekday)
          | _, _, _ => .error .missing

/-- The date that all fields agree on. -/
def date (p : Fields) : Except Unresolved Int := do
  let n ← p.someDay
  if inRange n && p.yearMonthDayAgrees n && p.isoWeekAgrees n && p.ordinalAgrees n
      && p.quarter.getD (quarterOf n) == quarterOf n then
    return n
  else
    .error .conflict

/-- The second of the day and the nanoseconds. Seconds may be missing, then the fraction must be
missing too. Second 60 is a leap second. -/
def time (p : Fields) : Except Unresolved (Nat × Nat) :=
  match p.half, p.hourOfHalf, p.minute with
  | some half, some hour, some minute =>
    let start := (12 * half + hour) * 3600 + minute * 60
    match p.second, p.nanosecond with
    | none, none => .ok (start, 0)
    | none, some _ => .error .missing
    | some second, fraction =>
      let nano := fraction.getD 0
      .ok (if second == 60 then (start + 59, nano + 1000000000) else (start + second, nano))
  | _, _, _ => .error .missing

/-- Fills in what a count of seconds since 1970 says about the date and time. A second 60 that was
found before makes the count the end of the minute. -/
def fromTimestamp (p : Fields) (seconds : Int) : Except Unresolved WallClock := do
  let clock ← orConflict (wallClock? seconds 0)
  let clock ←
    match p.second, clock.secondOfDay % 60 with
    | some 60, 59 => pure clock
    | some 60, 0 => orConflict (wallClock? (seconds - 1) 0)
    | some 60, _ => .error .conflict
    | _, _ => pure clock
  let p ← if p.second == some 60 then pure p
    else orConflict (p.set? .second (clock.secondOfDay % 60 : Nat))
  let p ← orConflict (p.set? .year (yearOf clock.day))
  let p ← orConflict (p.set? .dayOfYear (ordinalOf clock.day))
  let p ← orConflict (p.set? .hour (clock.secondOfDay / 3600 : Nat))
  let p ← orConflict (p.set? .minute (clock.secondOfDay / 60 % 60 : Nat))
  let day ← p.date
  let (second, nano) ← p.time
  return ⟨day, second, nano⟩

/-- What a clock with the given offset shows. A count of seconds since 1970 must agree with date and
time, or stands in for missing ones. -/
def wallClock (p : Fields) (offset : Int) : Except Unresolved WallClock :=
  match p.date, p.time, p.timestamp with
  | .ok day, .ok (second, nano), timestamp =>
    let clock : WallClock := ⟨day, second, nano⟩
    let seconds := clock.seconds - offset
    match timestamp with
    | none => .ok clock
    | some given =>
      if given == seconds || (1000000000 ≤ nano && given == seconds + 1) then .ok clock
      else .error .conflict
  | .error .conflict, _, some _ => .error .conflict
  | _, .error .conflict, some _ => .error .conflict
  | _, _, some given => p.fromTimestamp (given + offset)
  | .error e, _, none => .error e
  | _, .error e, none => .error e

/-- The moment that fields with an offset denote. A count of seconds alone is counted in UTC. -/
def moment? (p : Fields) : Option Moment := do
  let offset ← p.offset.or (p.timestamp.map fun _ => 0)
  let clock ← p.wallClock offset |>.toOption
  if offset.natAbs < 86400 then clock.at? offset else none

end Fields

end TableQuery.Calendar
