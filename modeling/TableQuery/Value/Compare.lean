import TableQuery.Value.Basic

/-!
# Comparison of values

Two values are compared in the first type that has a counterpart of both: integer, float, moment,
boolean, text. Texts are compared without the blanks at their ends and in upper case.
-/

namespace TableQuery

open Text

/-- How two values compare. Booleans are equal or not but have no order. -/
inductive Comparison where
  | equal
  | less
  | greater
  | sameBoolean
  | otherBoolean
  /-- No common type, or a NULL. -/
  | incommensurable
  deriving DecidableEq, Repr

namespace Comparison

/-- The comparison of two members of an order from its strict part and its equality. Members that
are neither equal nor ordered are incommensurable. -/
def ofOrder (less greater equal : Bool) : Comparison :=
  if less then .less
  else if greater then .greater
  else if equal then .equal
  else .incommensurable

def ofIntegers (a b : Int64) : Comparison :=
  ofOrder (a < b) (b < a) (a == b)

def ofFloats (a b : Float) : Comparison :=
  ofOrder (a < b) (b < a) (a == b)

def ofMoments (a b : Calendar.Moment) : Comparison :=
  if a.before b then .less else if b.before a then .greater else .equal

def ofBooleans (a b : Bool) : Comparison :=
  if a == b then .sameBoolean else .otherBoolean

def ofTexts (a b : String) : Comparison :=
  ofOrder (a < b) (b < a) (a == b)

/-- The comparison with its sides exchanged. -/
def swap : Comparison → Comparison
  | less => greater
  | greater => less
  | c => c

end Comparison

/-- The six comparison operators. -/
inductive CompareOp where
  | equal
  | notEqual
  | less
  | lessOrEqual
  | greater
  | greaterOrEqual
  deriving DecidableEq, Repr

namespace CompareOp

def text : CompareOp → String
  | equal => "="
  | notEqual => "<>"
  | less => "<"
  | lessOrEqual => "<="
  | greater => ">"
  | greaterOrEqual => ">="

/-- All operators. -/
def every : List CompareOp :=
  [equal, notEqual, less, lessOrEqual, greater, greaterOrEqual]

/-- Whether two equal sides satisfy the operator. -/
def acceptsEqual : CompareOp → Bool
  | equal | lessOrEqual | greaterOrEqual => true
  | _ => false

/-- Whether a left side that is less satisfies the operator. -/
def acceptsLess : CompareOp → Bool
  | notEqual | less | lessOrEqual => true
  | _ => false

/-- Whether a left side that is greater satisfies the operator. -/
def acceptsGreater : CompareOp → Bool
  | notEqual | greater | greaterOrEqual => true
  | _ => false

/-- The operators that need an order. -/
def isOrder : CompareOp → Bool
  | equal | notEqual => false
  | _ => true

/-- The truth of the operator given how its sides compare. Booleans have no order, so the order
operators do not know about them. -/
def eval (op : CompareOp) : Comparison → Truth
  | .incommensurable => .unknown
  | .equal => .ofBool op.acceptsEqual
  | .less => .ofBool op.acceptsLess
  | .greater => .ofBool op.acceptsGreater
  | .sameBoolean => if op.isOrder then .unknown else .ofBool op.acceptsEqual
  | .otherBoolean => if op.isOrder then .unknown else .ofBool (op == notEqual)

end CompareOp

namespace Value

/-- The form in which texts are compared. -/
def fold (s : String) : String :=
  upper (trim s)

/-- Applies `f` to both counterparts if there are both. -/
def both {α β : Type} (a b : Option α) (f : α → α → β) : Option β :=
  match a, b with
  | some a, some b => some (f a b)
  | _, _ => none

/-- How two texts compare; other values have no text to be compared by. -/
def compareTexts? : Value → Value → Option Comparison
  | text a, text b => some (.ofTexts (fold a) (fold b))
  | _, _ => none

/-- How two values compare in their first common type. -/
def compare (clock : Calendar.Clock) (a b : Value) : Comparison :=
  if a.isNull || b.isNull then .incommensurable
  else
    match both a.toInteger? b.toInteger? Comparison.ofIntegers with
    | some c => c
    | none =>
      match both a.toFloat? b.toFloat? Comparison.ofFloats with
      | some c => c
      | none =>
        match both (a.toMoment? clock) (b.toMoment? clock) Comparison.ofMoments with
        | some c => c
        | none =>
          match both a.toBoolean? b.toBoolean? Comparison.ofBooleans with
          | some c => c
          | none => (compareTexts? a b).getD .incommensurable

/-- The truth of `a op b`. -/
def test (clock : Calendar.Clock) (op : CompareOp) (a b : Value) : Truth :=
  op.eval (a.compare clock b)

/-- Equality in which NULL matches NULL; groups and partitions are formed by it. -/
def equivalent (clock : Calendar.Clock) (a b : Value) : Truth :=
  if a.isNull && b.isNull then .yes else a.test clock .equal b

/-- The truth of `a IS b`, where `b` is NULL or a truth value. -/
def is (a b : Value) : Truth :=
  .ofBool (if b.isNull then a.isNull else a.toTruth == b.toTruth)

/-- Whether two lists of values are equivalent value by value, over their common length. -/
def allEquivalent (clock : Calendar.Clock) : List Value → List Value → Bool
  | a :: as, b :: bs => (a.equivalent clock b).holds && allEquivalent clock as bs
  | _, _ => true

/-- The truth of `=` and `<>` between rows: a pair that differs decides, and an incommensurable pair
leaves it open otherwise. -/
def testRowEquality (clock : Calendar.Clock) (op : CompareOp) (unknown : Bool) :
    List Value → List Value → Truth
  | a :: as, b :: bs =>
    match a.compare clock b with
    | .incommensurable => testRowEquality clock op true as bs
    | .equal | .sameBoolean => testRowEquality clock op unknown as bs
    | _ => .ofBool (op == .notEqual)
  | _, _ => if unknown then .unknown else .ofBool (op == .equal)

/-- The truth of an order operator between rows: the first pair that is not equal decides. -/
def testRowOrder (clock : Calendar.Clock) (op : CompareOp) : List Value → List Value → Truth
  | a :: as, b :: bs =>
    match a.compare clock b with
    | .equal => testRowOrder clock op as bs
    | .less => .ofBool op.acceptsLess
    | .greater => .ofBool op.acceptsGreater
    | _ => .unknown
  | _, _ => .ofBool op.acceptsEqual

/-- The truth of `as op bs` between rows. Rows of different widths do not compare. -/
def testRows (clock : Calendar.Clock) (op : CompareOp) (as bs : List Value) : Truth :=
  if as.length != bs.length then .unknown
  else if op.isOrder then testRowOrder clock op as bs
  else testRowEquality clock op false as bs

end Value

end TableQuery
