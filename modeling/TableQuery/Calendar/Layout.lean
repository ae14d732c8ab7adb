import TableQuery.Text.Character

/-!
# Layouts of dates and times

A layout says how a date and time is written: literal characters, blanks and specifiers such as
`%Y`. Users write layouts with the specifiers of `userSpecifier`; `userLayout` turns these into the
ones that `layoutItems` reads.
-/

namespace TableQuery.Calendar

open Text

/-- The numbers that a layout may contain. -/
inductive NumberField where
  | year | century | yearOfCentury
  | isoYear | isoCentury | isoYearOfCentury
  | quarter | month | day | dayOfYear
  | weekFromSunday | weekFromMonday | isoWeek
  | daysFromSunday | weekdayNumber
  | hour | hourOfHalf | minute | second | nanosecond | timestamp
  deriving DecidableEq, Repr

/-- A part of a layout. -/
inductive LayoutItem where
  | literal (cs : List Char)
  /-- Any number of blanks, none included. -/
  | blank
  | number (field : NumberField)
  | monthName (long : Bool)
  | weekdayName (long : Bool)
  /-- AM or PM. -/
  | half
  /-- A point and a fraction of a second, or nothing. -/
  | fraction
  /-- Like `fraction`, with exactly this many digits. -/
  | fractionOf (digits : Nat)
  /-- Exactly this many digits of a fraction, without a point. -/
  | fractionDigits (digits : Nat)
  /-- Characters up to the next blank. -/
  | zoneName
  /-- An offset; `zulu` allows `Z`, `hoursOnly` allows the minutes to be missing. -/
  | offset (zulu hoursOnly : Bool)
  /-- A date, a time and an offset as in RFC 3339. -/
  | timestampText
  /-- A specifier that no text fits. -/
  | bad
  deriving DecidableEq, Repr

/-- What the specifier letter after `%` stands for in a user's layout: minutes are `%i` and seconds
are `%s`. -/
def userSpecifier : Char → List Char
  | 'c' => "%-m".toList
  | 'E' => "%e".toList
  | 'e' => "%-d".toList
  | 'F' => "%.6f".toList
  | 'f' => "%.6f".toList
  | 'h' => "%I".toList
  | 'i' => "%M".toList
  | 'l' => "%-I".toList
  | 'M' => "%B".toList
  | 'N' => "%.f".toList
  | 'n' => "%.9f".toList
  | 'r' => "%I:%M:%S %p".toList
  | 's' => "%S".toList
  | 'T' => "%H:%M:%S".toList
  | 'W' => "%A".toList
  | 'Z' => "%:z".toList
  | 'z' => "%Z".toList
  | c => ['%', c]

/-- The layout with every specifier of a user replaced by what it stands for. A `%` at the end
stays. -/
def userLayout : List Char → List Char
  | '%' :: c :: cs => userSpecifier c ++ userLayout cs
  | c :: cs => c :: userLayout cs
  | [] => []

/-- A number that a padding mark (`-`, `0` or `_`) may precede. -/
def numberSpecifier? : Char → Option NumberField
  | 'C' => some .century
  | 'G' => some .isoYear
  | 'H' => some .hour
  | 'I' => some .hourOfHalf
  | 'M' => some .minute
  | 'S' => some .second
  | 'U' => some .weekFromSunday
  | 'V' => some .isoWeek
  | 'W' => some .weekFromMonday
  | 'Y' => some .year
  | 'd' => some .day
  | 'e' => some .day
  | 'f' => some .nanosecond
  | 'g' => some .isoYearOfCentury
  | 'j' => some .dayOfYear
  | 'k' => some .hour
  | 'l' => some .hourOfHalf
  | 'm' => some .month
  | 'q' => some .quarter
  | 's' => some .timestamp
  | 'u' => some .weekdayNumber
  | 'w' => some .daysFromSunday
  | 'y' => some .yearOfCentury
  | _ => none

/-- Numbers with a separator between each two of them. -/
def separated (separator : Char) : List NumberField → List LayoutItem
  | [] => []
  | [f] => [.number f]
  | f :: fs => .number f :: .literal [separator] :: separated separator fs

/-- A time of day on a clock with 24 hours. -/
def timeItems : List LayoutItem :=
  separated ':' [.hour, .minute, .second]

/-- What a single letter after `%` stands for. -/
def letterItems : Char → List LayoutItem
  | 'A' => [.weekdayName true]
  | 'B' => [.monthName true]
  | 'D' => separated '/' [.month, .day, .yearOfCentury]
  | 'F' => separated '-' [.year, .month, .day]
  | 'P' => [.half]
  | 'R' => separated ':' [.hour, .minute]
  | 'T' => timeItems
  | 'X' => timeItems
  | 'Z' => [.zoneName]
  | 'a' => [.weekdayName false]
  | 'b' => [.monthName false]
  | 'c' => [.weekdayName false, .blank, .monthName false, .blank, .number .day, .blank] ++ timeItems
      ++ [.blank, .number .year]
  | 'h' => [.monthName false]
  | 'n' => [.blank]
  | 'p' => [.half]
  | 'r' => separated ':' [.hourOfHalf, .minute, .second] ++ [.blank, .half]
  | 't' => [.blank]
  | 'v' => [.number .day, .literal ['-'], .monthName false, .literal ['-'], .number .year]
  | 'x' => separated '/' [.month, .day, .yearOfCentury]
  | 'z' => [.offset false false]
  | '+' => [.timestampText]
  | '%' => [.literal ['%']]
  | c => ((numberSpecifier? c).map fun f => [.number f]).getD [.bad]

/-- What follows a `%`: the items it stands for and the number of characters read. -/
def specifier : List Char → List LayoutItem × Nat
  | '-' :: c :: _ => (((numberSpecifier? c).map fun f => [.number f]).getD [.bad], 2)
  | '0' :: c :: _ => (((numberSpecifier? c).map fun f => [.number f]).getD [.bad], 2)
  | '_' :: c :: _ => (((numberSpecifier? c).map fun f => [.number f]).getD [.bad], 2)
  | '#' :: 'z' :: _ => ([.offset true true], 2)
  | ':' :: ':' :: ':' :: 'z' :: _ => ([.offset false false], 4)
  | ':' :: ':' :: 'z' :: _ => ([.offset false false], 3)
  | ':' :: 'z' :: _ => ([.offset false false], 2)
  | '.' :: '3' :: 'f' :: _ => ([.fractionOf 3], 3)
  | '.' :: '6' :: 'f' :: _ => ([.fractionOf 6], 3)
  | '.' :: '9' :: 'f' :: _ => ([.fractionOf 9], 3)
  | '.' :: 'f' :: _ => ([.fraction], 2)
  | '3' :: 'f' :: _ => ([.fractionDigits 3], 2)
  | '6' :: 'f' :: _ => ([.fractionDigits 6], 2)
  | '9' :: 'f' :: _ => ([.fractionDigits 9], 2)
  | c :: _ => (letterItems c, 1)
  | [] => ([.bad], 0)

/-- The parts of a layout. `skip` characters belong to a specifier that was already read. -/
def layoutItemsFrom : Nat → List Char → List LayoutItem
  | _, [] => []
  | skip + 1, _ :: cs => layoutItemsFrom skip cs
  | 0, c :: cs =>
    if c == '%' then (specifier cs).1 ++ layoutItemsFrom (specifier cs).2 cs
    else if isBlank c then .blank :: layoutItemsFrom 0 cs
    else .literal [c] :: layoutItemsFrom 0 cs

/-- The parts of a layout; literal text stands one character at a time. -/
def layoutItems (layout : String) : List LayoutItem :=
  layoutItemsFrom 0 layout.toList

end TableQuery.Calendar
