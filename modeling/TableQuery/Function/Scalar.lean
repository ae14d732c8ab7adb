import TableQuery.Error
import TableQuery.Value.Compare

/-!
# Scalar functions

The functions from values to a value. Their names are looked up in any case.
-/

namespace TableQuery

open Calendar Number Text

/-- The functions from values to a value. -/
inductive ScalarFunction where
  | coalesce | ifElse | ifNull | nullIf
  | upper | lower | trim | length
  | abs | round | ceil | floor
  | integer | float | string | boolean | datetime
  deriving DecidableEq, Repr

/-- The multiple of ten's power that a number of places stands for. -/
def tenTo (places : Float) : Float :=
  if places == 0 then 1 else Float.pow 10 places

/-- Rounds to a number of places; a half goes away from zero. -/
def roundHalfAway (f places : Float) : Float :=
  let scale := tenTo places
  if f < 0 then roundUp (scale * f - 0.5) / scale else roundDown (scale * f + 0.5) / scale

/-- The number rounded to the nearest integer, within the 64-bit range. -/
def roundToInt64 (f : Float) : Int64 :=
  truncate (roundHalfAway f 0)

namespace ScalarFunction

def name : ScalarFunction → String
  | coalesce => "COALESCE"
  | ifElse => "IF"
  | ifNull => "IFNULL"
  | nullIf => "NULLIF"
  | upper => "UPPER"
  | lower => "LOWER"
  | trim => "TRIM"
  | length => "LEN"
  | abs => "ABS"
  | round => "ROUND"
  | ceil => "CEIL"
  | floor => "FLOOR"
  | integer => "INTEGER"
  | float => "FLOAT"
  | string => "STRING"
  | boolean => "BOOLEAN"
  | datetime => "DATETIME"

/-- All scalar functions. -/
def every : List ScalarFunction := [
  coalesce, ifElse, ifNull, nullIf, upper, lower, trim, length, abs, round, ceil, floor, integer,
  float, string, boolean, datetime]

/-- The function of a name in any case. -/
def ofName? (name : String) : Option ScalarFunction :=
  let upper := Text.upper name
  every.find? fun f => f.name == upper

def arity : ScalarFunction → Arity
  | coalesce => .atLeast 1
  | ifElse => .exactly 3
  | ifNull | nullIf => .exactly 2
  | round | ceil | floor => .between 1 2
  | _ => .exactly 1

/-- A function of the text of a value; NULL for a value without a text. -/
def mapText (f : String → Value) (v : Value) : Value :=
  v.toText?.elim .null f

/-- A function of a number and a number of places, which is 0 unless given. -/
def mapPlaces (f : Float → Float → Float) (number : Value) (places : Option Value) : Value :=
  let places? := places.elim (some 0) fun p => p.toInteger?.map fun i => Float.ofInt i.toInt
  match number.toFloat?, places? with
  | some n, some p => .ofResult [number] (f n p)
  | _, _ => .null

/-- The integer nearest to a number, a text that is one, or the seconds of a moment. -/
def toInteger : Value → Value
  | .integer i => .integer i
  | .float f => .integer (roundToInt64 f)
  | .nan _ => .integer 0
  | .text s =>
    let cs := trimChars s.toList
    .ofOption (((readInteger? cs).or ((readFloat? cs).map roundToInt64)).map .integer)
  | .moment m => .integer (Int64.ofInt m.second)
  | _ => .null

/-- The number of a value, or the seconds of a moment. -/
def toFloat : Value → Value
  | .moment m => .float m.epoch
  | .nan negative => .nan negative
  | v => .ofOption (v.toFloat?.map .float)

/-- The text of a value of any type; NULL has none. -/
def toText (v : Value) : Value :=
  if v.isNull then .null else .text v.display

/-- The value of a function on a list of arguments that is as long as the function asks for. -/
def eval (clock : Clock) : ScalarFunction → List Value → Value
  | coalesce, vs => .ofOption (vs.find? fun v => !v.isNull)
  | ifElse, [condition, a, b] => if condition.toTruth.holds then a else b
  | ifNull, [a, b] => if a.isNull then b else a
  | nullIf, [a, b] => if (a.test clock .equal b).holds then .null else a
  | upper, [v] => mapText (fun s => .text (Text.upper s)) v
  | lower, [v] => mapText (fun s => .text (Text.lower s)) v
  | trim, [v] => mapText (fun s => .text (Text.trim s)) v
  | length, [v] => mapText (fun s => .ofNat s.length) v
  | abs, [.nan _] => .nan false
  | abs, [v] => .ofOption (v.toFloat?.map fun f => .ofFloat f.abs)
  | round, v :: places => mapPlaces roundHalfAway v places.head?
  | ceil, v :: places => mapPlaces (fun n p => roundUp (tenTo p * n) / tenTo p) v places.head?
  | floor, v :: places => mapPlaces (fun n p => roundDown (tenTo p * n) / tenTo p) v places.head?
  | integer, [v] => toInteger v
  | float, [v] => toFloat v
  | string, [v] => toText v
  | boolean, [v] => .ofOption (v.toBoolean?.map .boolean)
  | datetime, [v] => .ofOption ((v.toMoment? clock).map .moment)
  | _, _ => .null

/-- Calls a function by the name under which the query knows it. -/
def call (f : ScalarFunction) (clock : Clock) (name : String) (args : List Value) :
    Except QueryError Value := do
  checkArity name f.arity args.length
  return f.eval clock args

end ScalarFunction

end TableQuery
