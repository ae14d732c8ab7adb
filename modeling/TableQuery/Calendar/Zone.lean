import TableQuery.Text.Case
import TableQuery.Text.Character
import TableQuery.Calendar.Reading

/-!
# Zones and clocks

A zone gives the offset of wall clock times that carry none. A clock adds the layouts in which texts
are read as moments: the user's first, then RFC 3339 and the layouts listed here.
-/

namespace TableQuery.Calendar

open Text

/-- The zone of a clock. The local zone of the engine is UTC. -/
inductive Zone where
  | utc
  | local
  | fixed (offset : Int)
  deriving DecidableEq, Repr

namespace Zone

/-- How far a clock in the zone is ahead of UTC, in seconds. -/
def offset : Zone → Int
  | utc => 0
  | .local => 0
  | fixed offset => offset

/-- Reads the four digits of an offset, which colons may interrupt. -/
def parseOffset? (cs : List Char) : Option Int :=
  match cs.filter (· != ':') with
  | [a, b, c, d] =>
    if [a, b, c, d].all isDigit then
      let digit (c : Char) : Int := c.toNat - '0'.toNat
      some ((10 * digit a + digit b) * 3600 + (10 * digit c + digit d) * 60)
    else
      none
  | _ => none

/-- Reads a zone: `UTC`, `Z` or nothing, `LOCAL`, or a signed offset of less than a day. -/
def parse? (s : String) : Option Zone :=
  let cs := trimChars s.toList
  match upper (String.ofList cs) with
  | "UTC" | "Z" | "" => some utc
  | "LOCAL" => some .local
  | _ =>
    let offset :=
      match cs with
      | '+' :: ds => parseOffset? ds
      | '-' :: ds => (parseOffset? ds).map (-·)
      | _ => none
    offset.bind fun o => if o.natAbs < 86400 then some (fixed o) else none

/-- The name of the zone, or its offset. -/
def text : Zone → String
  | utc => "UTC"
  | .local => "Local"
  | fixed offset => Moment.offsetText offset

end Zone

/-- The moment at which a clock in the zone shows this time. -/
def WallClock.within? (w : WallClock) (zone : Zone) : Option Moment :=
  w.at? zone.offset

/-- How texts and numbers are read as moments. The layouts are the user's, as `userLayout`
gives them. -/
structure Clock where
  layouts : List String := []
  zone : Zone := .utc

namespace Clock

/-- A clock that reads the layouts of a user. -/
def ofUserLayouts (layouts : List String) (zone : Zone) : Clock :=
  ⟨layouts.map fun l => String.ofList (userLayout l.toList), zone⟩

/-- The moment a number of seconds after the start of 1970. -/
def ofSeconds? (clock : Clock) (seconds : Int) (nano : Nat) : Option Moment :=
  (wallClock? seconds nano).map fun w => ⟨w.seconds, nano, clock.zone.offset⟩

/-- Layouts with an offset. -/
def offsetLayouts : List String := [
  "%Y-%m-%dT%H:%M:%S%.f%:z",
  "%Y-%m-%d %H:%M:%S%.f%:z",
  "%Y-%m-%d %H:%M:%S%.f %:z",
  "%Y-%m-%d %H:%M:%S%.f %z",
  "%Y/%m/%d %H:%M:%S%.f%:z",
  "%Y/%m/%d %H:%M:%S%.f %:z"]

/-- Layouts with a date and a time of day in the clock's zone. -/
def timeLayouts : List String := [
  "%Y-%m-%d %H:%M:%S%.f",
  "%Y-%m-%dT%H:%M:%S%.f",
  "%Y/%m/%d %H:%M:%S%.f",
  "%Y-%m-%d %H:%M",
  "%Y/%m/%d %H:%M"]

/-- Layouts with a date alone, which means its first second. -/
def dateLayouts : List String := ["%Y-%m-%d", "%Y/%m/%d"]

/-- The moment that fields denote, with the zone for a time without an offset and midnight for a
date without a time. -/
def momentOf? (clock : Clock) (p : Fields) : Option Moment :=
  match p.moment? with
  | some m => some m
  | none =>
    match p.wallClock 0 with
    | .ok w => w.within? clock.zone
    | .error _ =>
      match p.date with
      | .ok day => WallClock.within? ⟨day, 0, 0⟩ clock.zone
      | .error _ => none

/-- Reads a moment by the user's layouts. -/
def readByUserLayouts? (clock : Clock) (cs : List Char) : Option Moment :=
  clock.layouts.findSome? fun layout => (readFields? layout cs).bind clock.momentOf?

/-- Reads a moment by the built-in layouts. The first time layout or date layout that fits decides,
even if the zone has no such moment. -/
def readByOwnLayouts? (clock : Clock) (cs : List Char) : Option Moment :=
  match offsetLayouts.findSome? fun layout => (readFields? layout cs).bind Fields.moment? with
  | some m => some m
  | none =>
    let times := timeLayouts.findSome? fun layout =>
      (readFields? layout cs).bind fun p => (p.wallClock 0).toOption
    let dates := dateLayouts.findSome? fun layout =>
      (readFields? layout cs).bind fun p => p.date.toOption
    match times, dates with
    | some w, _ => w.within? clock.zone
    | none, some day => WallClock.within? ⟨day, 0, 0⟩ clock.zone
    | none, none => none

/-- Reads a text as a moment. Beyond the user's layouts it must start with a digit and be at least
eight bytes long. -/
def read? (clock : Clock) (s : String) : Option Moment :=
  let cs := trimChars s.toList
  match clock.readByUserLayouts? cs with
  | some m => some m
  | none =>
    if (String.ofList cs).utf8ByteSize < 8 || !(cs.head?.any isDigit) then none
    else
      match readRfc3339? cs with
      | some m => some m
      | none => clock.readByOwnLayouts? cs

end Clock

end TableQuery.Calendar
