import TableQuery.Number.Shortest

/-!
# Doubles as quotients

A finite double is a whole number over a power of two. Its whole part and the whole numbers around
it are computed from that quotient.
-/

namespace TableQuery.Number

/-- The number that a finite double denotes: a numerator and a positive denominator. -/
def ratio (f : Float) : Int × Nat :=
  let bits := f.toBits.toNat
  let b := Binary.ofBits (bits % pow2 63)
  let num : Int := b.significand * pow2 b.exponent.toNat
  (if bits / pow2 63 % 2 == 1 then -num else num, pow2 (-b.exponent).toNat)

/-- The largest whole number that is not above a finite double. -/
def wholePart (f : Float) : Int :=
  let (num, den) := ratio f
  num / den

/-- Whether a finite double is a whole number. -/
def isWhole (f : Float) : Bool :=
  let (num, den) := ratio f
  num % den == 0

/-- The whole number nearest to a finite double, the larger one if two are equally near. -/
def nearestWhole (f : Float) : Int :=
  let (num, den) := ratio f
  (2 * num + den) / (2 * den)

/-- The largest whole double that is not above a double. Only what is finite has another one. -/
def roundDown (f : Float) : Float :=
  if f.isFinite && !isWhole f then Float.ofInt (wholePart f) else f

/-- The smallest whole double that is not below a double. -/
def roundUp (f : Float) : Float :=
  -roundDown (-f)

/-- The 64-bit integer nearest to an integer. -/
def clampInt64 (i : Int) : Int64 :=
  Int64.ofInt (max Int64.minValue.toInt (min Int64.maxValue.toInt i))

/-- A double without its fraction, within the 64-bit range. The quotient of an infinity is beyond
that of every finite double. What is not a number becomes zero. -/
def truncate (f : Float) : Int64 :=
  if f.isNaN then 0
  else
    let (num, den) := ratio f
    clampInt64 (num.tdiv den)

end TableQuery.Number
