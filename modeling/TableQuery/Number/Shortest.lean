import TableQuery.Number.Nearest

/-!
# The shortest text of a double

A finite double is `m · 2^q`, and the reals that round to it form an interval around it, its ends
included if `m` is even. The shortest text has the fewest digits that denote a number of that
interval and, among those, the number nearest to the double; of two equally near ones the larger
magnitude is taken. Digits are written positionally, whatever the exponent.
-/

namespace TableQuery.Number

/-- `significand · 2^exponent`. -/
structure Binary where
  significand : Nat
  exponent : Int

/-- The magnitude that a finite bit pattern denotes. -/
def Binary.ofBits (bits : Nat) : Binary :=
  let field : Nat := bits / pow2 52 % pow2 11
  let fraction := bits % pow2 52
  if field == 0 then ⟨fraction, -1074⟩ else ⟨fraction + pow2 52, (field : Int) - 1075⟩

/-- The ends of the interval of reals that round to the double, and the double itself, all in
quarters of its last bit. Below a power of two the neighbour is only half as far away. -/
structure Interval where
  low : Nat
  mid : Nat
  high : Nat
  closed : Bool
  exponent : Int

def Binary.interval (b : Binary) : Interval :=
  let m := b.significand
  { low := if m == pow2 52 && b.exponent != -1074 then 4 * m - 1 else 4 * m - 2
    mid := 4 * m
    high := 4 * m + 2
    closed := m % 2 == 0
    exponent := b.exponent - 2 }

/-- Both sides of a comparison of `d · 10^e` with `n · 2^b`, as natural numbers. -/
def crossed (d : Nat) (e : Int) (n : Nat) (b : Int) : Nat × Nat :=
  (d * pow10 e.toNat * pow2 (-b).toNat, n * pow2 b.toNat * pow10 (-e).toNat)

/-- Whether `d · 10^e` rounds to the double. -/
def Interval.contains (i : Interval) (d : Nat) (e : Int) : Bool :=
  let (l, l') := crossed d e i.low i.exponent
  let (h, h') := crossed d e i.high i.exponent
  if i.closed then l' ≤ l && h ≤ h' else l' < l && h < h'

/-- The number of decimal digits. -/
def digitCount (n : Nat) : Nat :=
  (Nat.toDigits 10 n).length

/-- The exponent `p` with `10^p ≤ num / den < 10^(p + 1)`. -/
def leadingExponent (num den : Nat) : Int :=
  if den ≤ num then (digitCount (num / den) : Int) - 1
  else -(digitCount ((den - 1) / num) : Int)

/-- The decimal number `d · 10^e` of the interval that has the fewest digits, looking at `fuel`
digit counts from the one whose last digit stands at `e`. Of two candidates the nearer one is
taken, the larger if they are equally near. -/
def Interval.shortest (i : Interval) (num den : Nat) : Nat → Int → Nat × Int
  | 0, e => (num, e)
  | fuel + 1, e =>
    let scaledNum := num * pow10 (-e).toNat
    let scaledDen := den * pow10 e.toNat
    let d := scaledNum / scaledDen
    let rest := scaledNum % scaledDen
    match i.contains d e, i.contains (d + 1) e with
    | true, true => if 2 * rest < scaledDen then (d, e) else (d + 1, e)
    | true, false => (d, e)
    | false, true => (d + 1, e)
    | false, false => i.shortest num den fuel (e - 1)

/-- The shortest digits of a positive double, and the exponent of the last of them. -/
def Binary.shortest (b : Binary) : Nat × Int :=
  let num := b.significand * pow2 b.exponent.toNat
  let den := pow2 (-b.exponent).toNat
  b.interval.shortest num den 17 (leadingExponent num den)

/-- Without zeros at the end of a list given last digit first. -/
def dropZeros (ds : List Char) : List Char :=
  ds.dropWhile (· == '0')

/-- `d · 10^e` without an exponent and without zeros at the end of the fraction. -/
def positional (d : Nat) (e : Int) : String :=
  let ds := Nat.toDigits 10 d
  if 0 ≤ e then String.ofList (ds ++ List.replicate e.toNat '0')
  else
    let places := (-e).toNat
    let padded := List.replicate (places + 1 - ds.length) '0' ++ ds
    let whole := padded.take (padded.length - places)
    let fraction := (dropZeros (padded.drop (padded.length - places)).reverse).reverse
    String.ofList (if fraction.isEmpty then whole else whole ++ '.' :: fraction)

/-- The shortest text that reads back as the same double. -/
def floatText (f : Float) : String :=
  let bits := f.toBits.toNat
  let sign := if bits / pow2 63 % 2 == 1 then "-" else ""
  let magnitude := bits % pow2 63
  if magnitude == 0 then sign ++ "0"
  else if magnitude == infinityBits then sign ++ "inf"
  else if infinityBits < magnitude then "NaN"
  else
    let (d, e) := (Binary.ofBits magnitude).shortest
    sign ++ positional d e

end TableQuery.Number
