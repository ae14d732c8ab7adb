import TableQuery.Text.Character
import TableQuery.Number.Nearest

/-!
# Reading decimal numbers

A whole number is an optional sign and digits; it is read as a 64-bit integer if it fits. A decimal
number may also have a fraction and an exponent and is read as the nearest double. The words for
infinity and not-a-number are read too.
-/

namespace TableQuery.Number

open Text

/-- The number that a list of digits denotes. -/
def ofDigits (ds : List Char) : Nat :=
  ds.foldl (fun n d => 10 * n + (d.toNat - '0'.toNat)) 0

/-- A leading sign, and whether it is a minus. -/
def splitSign : List Char → Bool × List Char
  | '-' :: cs => (true, cs)
  | '+' :: cs => (false, cs)
  | cs => (false, cs)

/-- The integer as a 64-bit one, if it fits. -/
def int64? (i : Int) : Option Int64 :=
  if Int64.minValue.toInt ≤ i && i ≤ Int64.maxValue.toInt then some (Int64.ofInt i) else none

/-- Reads a whole number that fits into 64 bits. -/
def readInteger? (cs : List Char) : Option Int64 :=
  let (negative, ds) := splitSign cs
  if !ds.isEmpty && ds.all isDigit then
    let n : Int := ofDigits ds
    int64? (if negative then -n else n)
  else
    none

/-- An unsigned decimal number: `digits · 10 ^ exponent`. -/
structure Decimal where
  digits : Nat
  exponent : Int

/-- Whole exponents of ten beyond this bound make every double infinite or zero. -/
def exponentBound : Int :=
  2000

/-- The double nearest to a decimal number. -/
def Decimal.toFloat (d : Decimal) : Float :=
  let leading := d.exponent + (Nat.toDigits 10 d.digits).length
  if d.digits == 0 || leading < -exponentBound then 0
  else if exponentBound < leading then Float.ofBits (UInt64.ofNat infinityBits)
  else if 0 ≤ d.exponent then nearest (d.digits * pow10 d.exponent.toNat) 1
  else nearest d.digits (pow10 (-d.exponent).toNat)

/-- Reads the exponent after the digits: nothing, or `e`, an optional sign and digits. -/
def readExponent? : List Char → Option Int
  | [] => some 0
  | e :: cs =>
    let (negative, ds) := splitSign cs
    if (e == 'e' || e == 'E') && !ds.isEmpty && ds.all isDigit then
      let n : Int := ofDigits ds
      some (if negative then -n else n)
    else
      none

/-- Splits off a fraction: a point and the digits after it. -/
def splitFraction : List Char → List Char × List Char
  | '.' :: cs => (cs.takeWhile isDigit, cs.dropWhile isDigit)
  | cs => ([], cs)

/-- Reads digits with an optional point and an optional exponent. At least one digit is needed. -/
def readDecimal? (cs : List Char) : Option Decimal :=
  let whole := cs.takeWhile isDigit
  let (fraction, rest) := splitFraction (cs.dropWhile isDigit)
  if whole.isEmpty && fraction.isEmpty then none
  else (readExponent? rest).map fun e => ⟨ofDigits (whole ++ fraction), e - fraction.length⟩

/-- The double that is not a number. -/
def notANumber : Float :=
  0 / 0

/-- Reads the names of the values that no digits denote. -/
def readSpecial? (cs : List Char) : Option Float :=
  match String.ofList (cs.map Char.toLower) with
  | "inf" | "infinity" => some (1 / 0)
  | "nan" => some notANumber
  | _ => none

/-- Reads a signed decimal number, an infinity or not-a-number. -/
def readFloat? (cs : List Char) : Option Float :=
  let (negative, body) := splitSign cs
  let magnitude := ((readDecimal? body).map Decimal.toFloat).or (readSpecial? body)
  magnitude.map fun f => if negative then -f else f

/-- Whether a text starts like a decimal number: an optional sign, an optional point, a digit. -/
def looksNumeric (cs : List Char) : Bool :=
  match (splitSign cs).2 with
  | '.' :: d :: _ => isDigit d
  | d :: _ => isDigit d
  | [] => false

end TableQuery.Number
