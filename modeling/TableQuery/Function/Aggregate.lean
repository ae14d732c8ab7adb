import TableQuery.Value.Arithmetic
import TableQuery.Value.Compare

/-!
# Aggregate functions

The functions from a list of values to a value. NULLs do not count.
-/

namespace TableQuery

open Calendar Number

/-- The functions that reduce a list of values. -/
inductive Aggregate where
  | count
  | max
  | min
  | sum
  | avg
  | median
  deriving DecidableEq, Repr

/-- Keeps the first of values that are equivalent; each value is compared with those kept. -/
def distinctFrom (clock : Clock) (kept : List Value) : List Value → List Value
  | [] => kept
  | v :: vs =>
    if kept.any fun u => (u.equivalent clock v).holds then distinctFrom clock kept vs
    else distinctFrom clock (kept ++ [v]) vs

/-- The values without later equivalent ones. -/
def distinctValues (clock : Clock) (vs : List Value) : List Value :=
  distinctFrom clock [] vs

/-- Joins the texts of the values that are not NULL; NULL if there are none. -/
def joinTexts (separator : String) (vs : List Value) : Value :=
  let parts := (vs.filter fun v => !v.isNull).map Value.display
  if parts.isEmpty then .null else .text (separator.intercalate parts)

/-- An order of all doubles that are numbers: negative ones first, then by size. -/
def floatRank (f : Float) : Int :=
  let bits := f.toBits.toNat
  if bits < pow2 63 then bits else (pow2 63 : Int) - 1 - bits

/-- The order of values that denote a number. What is not a number is beyond the infinity of its
sign. -/
def Value.numericRank : Value → Int
  | nan negative => if negative then -(pow2 63 : Int) else pow2 63
  | v => v.toFloat?.elim 0 floatRank

namespace Aggregate

def name : Aggregate → String
  | count => "COUNT"
  | max => "MAX"
  | min => "MIN"
  | sum => "SUM"
  | avg => "AVG"
  | median => "MEDIAN"

/-- All aggregates. -/
def every : List Aggregate :=
  [count, max, min, sum, avg, median]

/-- The aggregate of a name in any case. -/
def ofName? (name : String) : Option Aggregate :=
  let upper := Text.upper name
  every.find? fun f => f.name == upper

/-- The first value that no later one replaces: a later value does if it is `op` to the one held. -/
def extreme (clock : Clock) (op : CompareOp) (vs : List Value) : Value :=
  let step (held : Option Value) (v : Value) : Option Value :=
    match held with
    | none => some v
    | some h => if (v.test clock op h).holds then some v else some h
  .ofOption ((vs.filter fun v => !v.isNull).foldl step none)

/-- The values that denote a number. -/
def numbers (vs : List Value) : List Value :=
  vs.filter fun v => v.toFloat?.isSome

/-- The sum of values that denote numbers, as doubles from left to right. -/
def total (vs : List Value) : Value :=
  vs.foldl (Value.combine (· + ·)) (.integer 0)

/-- The quotient of two values as doubles. -/
def quotient : Value → Value → Value :=
  Value.combine (· / ·)

/-- A value as a number; a moment counts as its seconds. -/
def measure? (clock : Clock) (v : Value) : Option Value :=
  (v.toFloat?.map (Value.ofResult [v])).or ((v.toMoment? clock).map fun m => .ofFloat m.epoch)

/-- The middle number in order, or the mean of the two in the middle. -/
def middle (vs : List Value) : Value :=
  let sorted := vs.mergeSort fun a b => a.numericRank ≤ b.numericRank
  let half := sorted.length / 2
  let upper := sorted.getD half .null
  if sorted.length % 2 == 1 then upper
  else quotient (total [sorted.getD (half - 1) .null, upper]) (.integer 2)

/-- A function of a list of values, NULL if the list is empty. -/
def ofSome (f : List Value → Value) (vs : List Value) : Value :=
  if vs.isEmpty then .null else f vs

/-- The value of an aggregate over a list. -/
def eval (f : Aggregate) (clock : Clock) (vs : List Value) : Value :=
  match f with
  | count => .ofNat (vs.filter fun v => !v.isNull).length
  | max => extreme clock .greater vs
  | min => extreme clock .less vs
  | sum => ofSome total (numbers vs)
  | avg => ofSome (fun ns => quotient (total ns) (.ofNat ns.length)) (numbers vs)
  | median => ofSome middle (vs.filterMap (measure? clock))

end Aggregate

end TableQuery
