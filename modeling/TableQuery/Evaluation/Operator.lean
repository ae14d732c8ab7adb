import TableQuery.Evaluation.Env

/-!
# Operators

The meaning of the operators of the language, given the meanings of their operands. Which operands
are evaluated, and in which order, is part of it: an operand may fail or assign a variable.
-/

namespace TableQuery

open Calendar

/-- The value of `left op right`; the right side is not evaluated if the left one is NULL. -/
def evalArith (op : ArithOp) (left right : Eval Value) : Eval Value := do
  let a ← left
  if a.isNull then return .null
  return op.eval a (← right)

/-- The text of the operands one after the other; NULL as soon as one has no text. -/
def evalConcat (env : Env) (before : String) : List Operand → Eval Value
  | [] => return .text before
  | o :: os => do
    match (← o.eval env).toText? with
    | some s => evalConcat env (before ++ s) os
    | none => return .null

/-- The truth of two conditions; the right one is not evaluated if the left one decides. -/
def evalLogic (op : LogicOp) (left right : Eval Value) : Eval Value := do
  match op, (← left).toTruth with
  | .and, .no => return .truth .no
  | .or, .yes => return .truth .yes
  | .and, t => return .truth (t.and (← right).toTruth)
  | .or, t => return .truth (t.or (← right).toTruth)

/-- The result of the first branch whose condition passes the test. -/
def evalBranches (test : Value → Truth) (otherwise : Eval Value) :
    List (Eval Value × Eval Value) → Eval Value
  | [] => otherwise
  | (condition, result) :: branches => do
    if (test (← condition)).holds then result
    else evalBranches test otherwise branches

/-- A `CASE` expression: with an operand its conditions are compared with it, else they are tested
themselves. -/
def evalCase (clock : Clock) (operand : Option (Eval Value))
    (branches : List (Eval Value × Eval Value)) (otherwise : Option (Eval Value)) : Eval Value := do
  let test : Value → Truth ←
    match operand with
    | some o =>
      let v ← o
      pure (v.test clock .equal)
    | none => pure Value.toTruth
  evalBranches test (otherwise.getD (return .null)) branches

/-- An operand that may stand for several values at once: a row, or a subquery, which has no row at
all if its result is empty. -/
structure RowOperand where
  text : String
  value : Eval Value
  row : Eval (Option (List Value))

/-- The truth of `left op right` for a row `left`; both must be equally wide. -/
def evalRowTest (clock : Clock) (op : CompareOp) (left : List Value) (right : RowOperand) :
    Eval Truth := do
  match ← right.row with
  | none => return .unknown
  | some row =>
    if row.length != left.length then throw (.rowWidth right.text left.length)
    else return Value.testRows clock op left row

/-- The truth of a comparison whose left side is written as a row. -/
def evalRowCompare (clock : Clock) (op : CompareOp) (left right : RowOperand) : Eval Truth := do
  match ← left.row with
  | none => return .unknown
  | some row => evalRowTest clock op row right

/-- The truth of `left BETWEEN low AND high`. The upper bound is not evaluated if the lower one
decides, and no bound is if the left side is NULL. -/
def evalBetween (clock : Clock) (negated : Bool) (left low high : RowOperand) : Eval Truth := do
  match ← left.row with
  | none => return .unknown
  | some [.null] => return .unknown
  | some row =>
    let test (op : CompareOp) (bound : RowOperand) : Eval Truth :=
      match row with
      | [v] => return v.test clock op (← bound.value)
      | _ => evalRowTest clock op row bound
    let above ← test .greaterOrEqual low
    if above == .no then return Truth.negateIf negated .no
    else return Truth.negateIf negated (above.and (← test .lessOrEqual high))

/-- How a row compares with another one; rows of one value compare as values. -/
def testWith (clock : Calendar.Clock) (op : CompareOp) (left right : List Value) : Truth :=
  match left, right with
  | [a], b :: _ => a.test clock op b
  | _, _ => Value.testRows clock op left right

/-- The combined truth of `left op row` over the rows of a list or subquery. -/
def evalQuantified (clock : Clock) (op : CompareOp) (combine : List Truth → Truth)
    (left : Eval (Option (List Value))) (rows : Nat → Eval (List (List Value))) : Eval Truth := do
  match ← left with
  | none => return .unknown
  | some row => return combine ((← rows row.length).map (testWith clock op row))

/-- The only value of a subquery; NULL if it has no record. -/
def valueOfResult (q : Query) (result : View) : Except QueryError Value :=
  if 1 < result.header.width then .error (.tooManyFields q.text)
  else
    match result.records with
    | [] => .ok .null
    | [r] => .ok (r.value 0)
    | _ => .error (.tooManyRecords q.text)

/-- The only row of a subquery, if it has one. -/
def rowOfResult (q : Query) (result : View) : Except QueryError (Option (List Value)) :=
  match result.records with
  | [] => .ok none
  | [r] => .ok (some r.values)
  | _ => .error (.tooManyRecords q.text)

/-- The rows of a subquery, which must be as wide as what they are compared with. -/
def rowsOfResult (q : Query) (width : Nat) (result : View) :
    Except QueryError (List (List Value)) :=
  if result.header.width == width then .ok result.rows
  else if width == 1 then .error (.tooManyFields q.text)
  else .error (.rowWidth (Expr.subquery q).text width)

end TableQuery
