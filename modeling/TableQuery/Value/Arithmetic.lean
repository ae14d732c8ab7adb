import TableQuery.Value.Basic

/-!
# Arithmetic on values

Two integers give an integer modulo 2^64; all other numbers are computed as doubles. Division is
always done on doubles, and what has no number has no result.
-/

namespace TableQuery

/-- The operators between two numbers. -/
inductive ArithOp where
  | add
  | subtract
  | multiply
  | divide
  | remainder
  deriving DecidableEq, Repr

/-- The signs in front of a number. -/
inductive Sign where
  | plus
  | minus
  deriving DecidableEq, Repr

/-- The value of an operation on the doubles that two values denote, NULL if one denotes none. -/
def Value.combine (op : Float → Float → Float) (a b : Value) : Value :=
  match a.toFloat?, b.toFloat? with
  | some x, some y => ofResult [a, b] (op x y)
  | _, _ => null

namespace ArithOp

def text : ArithOp → String
  | add => "+"
  | subtract => "-"
  | multiply => "*"
  | divide => "/"
  | remainder => "%"

/-- All operators. -/
def every : List ArithOp :=
  [add, subtract, multiply, divide, remainder]

/-- The operator on integers. The remainder by zero is NULL, and division is not done on integers.
-/
def onIntegers? : ArithOp → Int64 → Int64 → Option Value
  | add, a, b => some (.integer (a + b))
  | subtract, a, b => some (.integer (a - b))
  | multiply, a, b => some (.integer (a * b))
  | remainder, a, b => some (if b == 0 then .null else .integer (a % b))
  | divide, _, _ => none

/-- The nearest whole double; of two, the even one. -/
def roundToEven (x : Float) : Float :=
  let a := x.abs
  let low := a.floor
  let rest := a - low
  let r :=
    if rest < 0.5 then low
    else if 0.5 < rest then low + 1
    else if (low / 2).floor * 2 == low then low
    else low + 1
  if x < 0 || 1 / x < 0 then -r else r

/-- The operator on doubles. The quotient is rounded to the nearest whole number to find the
remainder, which therefore may be negative. -/
def onFloats : ArithOp → Float → Float → Float
  | add, a, b => a + b
  | subtract, a, b => a - b
  | multiply, a, b => a * b
  | divide, a, b => a / b
  | remainder, a, b => a - roundToEven (a / b) * b

/-- The value of `a op b`. -/
def eval (op : ArithOp) (a b : Value) : Value :=
  let integers := do op.onIntegers? (← a.toInteger?) (← b.toInteger?)
  match integers with
  | some v => v
  | none => .combine op.onFloats a b

end ArithOp

namespace Sign

def text : Sign → String
  | plus => "+"
  | minus => "-"

/-- The value of a number with a sign in front. -/
def eval (sign : Sign) (v : Value) : Value :=
  match sign, v, v.toInteger?, v.toFloat? with
  | plus, .nan negative, _, _ => .nan negative
  | minus, .nan negative, _, _ => .nan !negative
  | plus, _, some i, _ => .integer i
  | minus, _, some i, _ => .integer (-i)
  | plus, _, none, some f => .float f
  | minus, _, none, some f => .float (-f)
  | _, _, none, none => .null

end Sign

end TableQuery
