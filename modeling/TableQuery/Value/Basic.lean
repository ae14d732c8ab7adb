import TableQuery.Truth
import TableQuery.Number.Decimal
import TableQuery.Number.Exact
import TableQuery.Calendar.Zone

/-!
# Values

A cell holds a value of any of seven types, and every operation takes the values in the type it
needs: the functions `toInteger?`, `toFloat?`, `toMoment?`, `toBoolean?` and `toText?` say which
values have a counterpart in that type. A missing counterpart is `none`, which is not NULL.
-/

namespace TableQuery

open Text Number Calendar

/-- A value of a table, an expression or a variable. -/
inductive Value where
  | null
  | integer (i : Int64)
  | float (f : Float)
  /-- A float that is not a number, such as the quotient of zero by zero. Its sign decides nothing
  but its place among the numbers of a median. -/
  | nan (negative : Bool)
  | moment (m : Moment)
  | boolean (b : Bool)
  | truth (t : Truth)
  | text (s : String)
  deriving Inhabited

/-- The integer that a double denotes, if it is whole and fits into 64 bits. -/
def wholeFloat? (f : Float) : Option Int64 :=
  if f.isFinite && isWhole f then int64? (wholePart f) else none

/-- A moment from seconds since 1970, a fraction included; nanoseconds are rounded, but never up to
a whole second. -/
def momentOfFloat? (clock : Clock) (f : Float) : Option Moment :=
  if f.isFinite then
    let seconds := wholePart f
    let nano := nearestWhole ((f - Float.ofInt seconds) * 1e9)
    clock.ofSeconds? seconds (min nano.toNat 999999999)
  else
    none

namespace Value

/-- A double, as an integer if it is whole and fits. What numbers yield that is not a number is
negative. -/
def ofFloat (f : Float) : Value :=
  match wholeFloat? f with
  | some i => integer i
  | none => if f.isNaN then nan true else float f

/-- Whether the value is a float that is not a number. -/
def isNaN : Value → Bool
  | nan _ => true
  | _ => false

/-- The double that an operation on some values yields. The first of them that is not a number goes
through the operation as it is. -/
def ofResult (operands : List Value) (f : Float) : Value :=
  (operands.find? isNaN).getD (ofFloat f)

/-- A number of things. -/
def ofNat (n : Nat) : Value :=
  integer (Int64.ofNat n)

/-- The value, or NULL. -/
def ofOption (v : Option Value) : Value :=
  v.getD null

def isNull : Value → Bool
  | null => true
  | _ => false

/-- The name of the value's type. -/
def typeName : Value → String
  | null => "NULL"
  | integer _ => "INTEGER"
  | float _ | nan _ => "FLOAT"
  | moment _ => "DATETIME"
  | boolean _ => "BOOLEAN"
  | truth _ => "TERNARY"
  | text _ => "STRING"

/-- The trimmed characters of a text that starts like a number. -/
def numeral? (s : String) : Option (List Char) :=
  let cs := trimChars s.toList
  if looksNumeric cs then some cs else none

/-- Integers, whole floats and texts that denote either. -/
def toInteger? : Value → Option Int64
  | integer i => some i
  | float f => wholeFloat? f
  | text s => do
    let cs ← numeral? s
    (readInteger? cs).or ((readFloat? cs).bind wholeFloat?)
  | _ => none

/-- Integers and texts that spell an integer digit by digit. -/
def toIntegerStrictly? : Value → Option Int64
  | integer i => some i
  | text s => (numeral? s).bind readInteger?
  | _ => none

/-- Integers, floats and texts that denote a number. -/
def toFloat? : Value → Option Float
  | integer i => some (Float.ofInt i.toInt)
  | float f => some f
  | nan _ => some notANumber
  | text s => (numeral? s).bind readFloat?
  | _ => none

/-- Moments, seconds since 1970, and texts that denote either. -/
def toMoment? (clock : Clock) : Value → Option Moment
  | moment m => some m
  | integer i => clock.ofSeconds? i.toInt 0
  | float f => momentOfFloat? clock f
  | text s =>
    match clock.read? s with
    | some m => some m
    | none => do
      let cs ← numeral? s
      match readInteger? cs with
      | some i => clock.ofSeconds? i.toInt 0
      | none => (readFloat? cs).bind (momentOfFloat? clock)
  | _ => none

/-- The truth of a value that stands as a condition. -/
def toTruth : Value → Truth
  | truth t => t
  | boolean b => Truth.ofBool b
  | integer i => if i == 1 then .yes else if i == 0 then .no else .unknown
  | float f => if f == 1 then .yes else if f == 0 then .no else .unknown
  | text s =>
    match trim s with
    | "1" | "t" | "T" | "TRUE" | "true" | "True" => .yes
    | "0" | "f" | "F" | "FALSE" | "false" | "False" => .no
    | _ => .unknown
  | nan _ => .unknown
  | moment _ => .unknown
  | null => .unknown

/-- Booleans, and all other values but moments whose truth is definite. -/
def toBoolean? : Value → Option Bool
  | null => none
  | moment _ => none
  | v => v.toTruth.toBool?

/-- The digits of an integer. -/
def integerText (i : Int64) : String :=
  toString i.toInt

/-- Texts and numbers as texts. -/
def toText? : Value → Option String
  | text s => some s
  | integer i => some (integerText i)
  | float f => some (floatText f)
  | nan _ => some (floatText notANumber)
  | _ => none

def booleanText (b : Bool) : String :=
  if b then "true" else "false"

/-- The text that shows a value of any type. -/
def display : Value → String
  | null => "NULL"
  | integer i => integerText i
  | float f => floatText f
  | nan _ => floatText notANumber
  | moment m => m.text
  | boolean b => booleanText b
  | truth t => t.name
  | text s => s

end Value

end TableQuery
