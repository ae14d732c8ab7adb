import TableQuery.Number.Nearest
import TableQuery.Text.Character
import TableQuery.Calendar.Fields

/-!
# Reading dates and times

A text is read by the parts of a layout from left to right. Each reader takes characters from the
front and returns the rest, or fails; a whole text is read if nothing is left over.
-/

namespace TableQuery.Calendar

open Number Text

/-- The number that at most `width` digits at the front denote, if there are `least` of them and it
fits into 64 bits. -/
def readNumber? (least width : Nat) (cs : List Char) : Option (Nat × List Char) :=
  let ds := (cs.takeWhile isDigit).take width
  let n := ds.foldl (fun n d => 10 * n + (d.toNat - '0'.toNat)) 0
  if least ≤ ds.length && n < pow2 63 then some (n, cs.drop ds.length) else none

/-- All digits at the front. -/
def readDigits? (cs : List Char) : Option (Nat × List Char) :=
  readNumber? 1 cs.length cs

/-- How many digits a number may have when it has no sign. -/
def NumberField.width : NumberField → Nat
  | .year | .isoYear => 4
  | .quarter | .daysFromSunday | .weekdayNumber => 1
  | .dayOfYear => 3
  | .nanosecond => 9
  | .timestamp => 20
  | _ => 2

/-- Reads a number after optional blanks. A year with a sign may have any number of digits. -/
def NumberField.read? (field : NumberField) (cs : List Char) : Option (Int × List Char) :=
  let cs := trimStart cs
  match field == .year || field == .isoYear, cs with
  | true, '-' :: rest => (readDigits? rest).map fun (n, r) => (-(n : Int), r)
  | true, '+' :: rest => (readDigits? rest).map fun (n, r) => ((n : Int), r)
  | _, _ =>
    let found := if field == .timestamp then readDigits? cs else readNumber? 1 field.width cs
    found.map fun (n, r) => ((n : Int), r)

/-- Drops the word from the front, ignoring the case of ASCII letters. -/
def dropWord? : List Char → List Char → Option (List Char)
  | [], cs => some cs
  | w :: ws, c :: cs => if w == c.toLower then dropWord? ws cs else none
  | _ :: _, [] => none

/-- Finds which of the names, cut to three letters, stands at the front. With `long` the rest of the
name is read too if it is there. -/
def readName? (names : List String) (long : Bool) (cs : List Char) : Option (Nat × List Char) :=
  names.zipIdx.findSome? fun (name, i) =>
    (dropWord? (name.toList.take 3) cs).map fun rest =>
      (i, if long then (dropWord? (name.toList.drop 3) rest).getD rest else rest)

def monthNames : List String :=
  ["january", "february", "march", "april", "may", "june", "july", "august", "september",
    "october", "november", "december"]

def weekdayNames : List String :=
  ["monday", "tuesday", "wednesday", "thursday", "friday", "saturday", "sunday"]

/-- Reads the digits of a fraction of a second: any number of them, of which nine count. -/
def readFraction? (cs : List Char) : Option (Nat × List Char) :=
  (readNumber? 1 9 cs).map fun (n, rest) =>
    (n * pow10 (9 - (cs.length - rest.length)), rest.dropWhile isDigit)

/-- Reads exactly `digits` digits of a fraction of a second. -/
def readFixedFraction? (digits : Nat) (cs : List Char) : Option (Nat × List Char) :=
  (readNumber? digits digits cs).map fun (n, rest) => (n * pow10 (9 - digits), rest)

/-- Drops the colons and blanks between the hours and minutes of an offset. -/
def dropColons (cs : List Char) : List Char :=
  cs.dropWhile fun c => c == ':' || isBlank c

/-- Drops exactly one colon. -/
def dropColon? : List Char → Option (List Char)
  | ':' :: cs => some cs
  | _ => none

/-- Reads the sign of an offset; a minus may also be the mathematical sign. -/
def readSign? : List Char → Option (Bool × List Char)
  | '+' :: cs => some (false, cs)
  | '-' :: cs => some (true, cs)
  | '−' :: cs => some (true, cs)
  | _ => none

/-- Reads two digits and nothing else. -/
def readPair? (cs : List Char) : Option (Nat × List Char) :=
  readNumber? 2 2 cs

/-- Reads an offset in hours and minutes: `separator` drops what stands between them. -/
def readOffset? (separator : List Char → Option (List Char)) (zulu hoursOnly : Bool)
    (cs : List Char) : Option (Int × List Char) := do
  if zulu && (cs.head? == some 'Z' || cs.head? == some 'z') then
    return (0, cs.drop 1)
  let (negative, cs) ← readSign? cs
  let (hours, cs) ← readPair? cs
  let cs ← separator cs
  let (minutes, cs) ← if hoursOnly && cs.isEmpty then pure (0, cs) else readPair? cs
  if 60 ≤ minutes then none
  else
    let seconds : Int := hours * 3600 + minutes * 60
    return (if negative then -seconds else seconds, cs)

/-- What has been read: the fields found and the characters left. -/
abbrev ReadState := Fields × List Char

/-- Reads a date, a time and an offset loosely in the form of RFC 3339. -/
def readTimestampText? (p : Fields) (cs : List Char) : Option ReadState := do
  let number (field : NumberField) (s : ReadState) : Option ReadState := do
    let (v, rest) ← field.read? s.2
    return (← s.1.set? field v, rest)
  let mark (c : Char) (s : ReadState) : Option ReadState :=
    match trimStart s.2 with
    | d :: rest => if c == d then some (s.1, rest) else none
    | [] => none
  let s ← number .year (p, cs) >>= mark '-' >>= number .month >>= mark '-' >>= number .day
  let s ← match s.2 with
    | c :: rest => if c == 't' || c == 'T' || c == ' ' then some (s.1, rest) else none
    | [] => none
  let s ← number .hour s >>= mark ':' >>= number .minute >>= mark ':' >>= number .second
  let s ← match s.2 with
    | '.' :: rest => do
      let (n, rest) ← readFraction? rest
      pure (← s.1.set? .nanosecond n, rest)
    | _ => pure s
  let rest := trimStart s.2
  let (offset, rest) ← match dropWord? "utc".toList rest with
    | some rest => pure (0, rest)
    | none => readOffset? (fun r => some (dropColons r)) true false rest
  return (← s.1.setOffset? offset, rest)

/-- Reads one part of a layout. -/
def LayoutItem.read? (item : LayoutItem) (p : Fields) (cs : List Char) : Option ReadState := do
  match item with
  | .literal ls => if ls.isPrefixOf cs then some (p, cs.drop ls.length) else none
  | .blank => some (p, trimStart cs)
  | .number field =>
    let (v, rest) ← field.read? cs
    return (← p.set? field v, rest)
  | .monthName long =>
    let (i, rest) ← readName? monthNames long cs
    return (← p.setMonth? (i + 1), rest)
  | .weekdayName long =>
    let (i, rest) ← readName? weekdayNames long cs
    return (← p.setWeekday? i, rest)
  | .half =>
    match dropWord? "am".toList cs, dropWord? "pm".toList cs with
    | some rest, _ => return (← p.setHalf? 0, rest)
    | _, some rest => return (← p.setHalf? 1, rest)
    | _, _ => none
  | .fraction =>
    match cs with
    | '.' :: rest =>
      let (n, rest) ← readFraction? rest
      return (← p.set? .nanosecond n, rest)
    | _ => some (p, cs)
  | .fractionOf digits =>
    match cs with
    | '.' :: rest =>
      let (n, rest) ← readFixedFraction? digits rest
      return (← p.set? .nanosecond n, rest)
    | _ => some (p, cs)
  | .fractionDigits digits =>
    let (n, rest) ← readFixedFraction? digits cs
    return (← p.set? .nanosecond n, rest)
  | .zoneName => some (p, cs.dropWhile fun c => !isBlank c)
  | .offset zulu hoursOnly =>
    let (v, rest) ← readOffset? (fun r => some (dropColons r)) zulu hoursOnly (trimStart cs)
    return (← p.setOffset? v, rest)
  | .timestampText => readTimestampText? p cs
  | .bad => none

/-- Reads the parts of a layout one after the other. -/
def readItems? : List LayoutItem → ReadState → Option ReadState
  | [], s => some s
  | item :: items, s => item.read? s.1 s.2 >>= readItems? items

/-- The fields of a text that a layout fits as a whole. -/
def readFields? (layout : String) (cs : List Char) : Option Fields := do
  let (p, rest) ← readItems? (layoutItems layout) ({}, cs)
  if rest.isEmpty then some p else none

/-- Reads RFC 3339 strictly: fixed digit counts, a colon in the offset or `Z`; date and time may be
separated by a space. -/
def readRfc3339? (cs : List Char) : Option Moment := do
  let number (field : NumberField) (digits : Nat) (s : ReadState) : Option ReadState := do
    let (v, rest) ← readNumber? digits digits s.2
    return (← s.1.set? field v, rest)
  let mark (accepted : List Char) (s : ReadState) : Option ReadState :=
    match s.2 with
    | c :: rest => if accepted.contains c then some (s.1, rest) else none
    | [] => none
  let s ← number .year 4 ({}, cs) >>= mark ['-'] >>= number .month 2 >>= mark ['-']
    >>= number .day 2
  let s ← mark ['t', 'T', ' '] s >>= number .hour 2 >>= mark [':'] >>= number .minute 2
    >>= mark [':'] >>= number .second 2
  let s ← match s.2 with
    | '.' :: rest => do
      let (n, rest) ← readFraction? rest
      pure (← s.1.set? .nanosecond n, rest)
    | _ => pure s
  let (offset, rest) ← readOffset? dropColon? true false s.2
  if rest.isEmpty && offset.natAbs < 86400 then (← s.1.setOffset? offset).moment? else none

end TableQuery.Calendar
