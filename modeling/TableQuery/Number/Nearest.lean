/-!
# The nearest double

A quotient of natural numbers rounded to a binary64 number, ties to even. With `e` the exponent of
the last bit, chosen so that the rounded quotient `q` has 53 bits (fewer at the lowest exponent),
the bit pattern is `(e + 1074) · 2^52 + q`: a carry out of the significand lands in the exponent by
itself, and so does the step from the subnormal numbers to the normal ones.
-/

namespace TableQuery.Number

/-- Two to the power of `n`, the scale of binary numbers. -/
def pow2 (n : Nat) : Nat :=
  Nat.pow 2 n

/-- Ten to the power of `n`, the scale of decimal numbers. -/
def pow10 (n : Nat) : Nat :=
  Nat.pow 10 n

/-- The quotient `num / den` rounded to a whole number, ties to even. -/
def divNearestEven (num den : Nat) : Nat :=
  let q := num / den
  let r := num % den
  if 2 * r < den then q
  else if den < 2 * r then q + 1
  else if q % 2 == 0 then q else q + 1

/-- `num / den / 2^e` as a quotient of natural numbers. -/
def scaleDown (num den : Nat) (e : Int) : Nat × Nat :=
  if 0 ≤ e then (num, den * pow2 e.toNat) else (num * pow2 (-e).toNat, den)

/-- The exponent of the last bit of the double nearest to `num / den`. -/
def lastBitExponent (num den : Nat) : Int :=
  let e : Int := Int.ofNat num.log2 - Int.ofNat den.log2 - 53
  let (n, d) := scaleDown num den e
  max (-1074) (if n / d < pow2 53 then e else e + 1)

/-- The bit pattern of positive infinity; every finite positive pattern is below it. -/
def infinityBits : Nat :=
  0x7FF0000000000000

/-- The bit pattern of the double nearest to `num / den`. -/
def nearestBits (num den : Nat) : Nat :=
  if num == 0 || den == 0 then 0
  else
    let e := lastBitExponent num den
    let (n, d) := scaleDown num den e
    min infinityBits ((e + 1074).toNat * pow2 52 + divNearestEven n d)

/-- The double nearest to `num / den`. -/
def nearest (num den : Nat) : Float :=
  Float.ofBits (UInt64.ofNat (nearestBits num den))

end TableQuery.Number
