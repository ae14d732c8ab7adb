import TableQuery.Evaluation.Clause
import TableQuery.Evaluation.Load
import TableQuery.Value.Like

/-!
# The meaning of queries

The value of an expression and the result of a query, by recursion on their syntax. What each
operator and each clause does is said in the modules before; here they are given the meanings of
their parts.
-/

namespace TableQuery

/-- The value that the innermost record holds already for an expression. Names and literals are
never looked up in this way. -/
def Env.known? (env : Env) (e : Expr) : Option Value :=
  match e with
  | .literal _ | .column _ _ | .allColumns | .tableColumns _ | .variable _ => none
  | e => env.computed? fun _ => e.text

/-- Assigns a value to a variable. -/
def assignVariable (name : String) (value : Value) : Eval Value := do
  let scope ← (← get).setVariable name value
  set scope
  return value

/-- An operand that may be written as a row. -/
def rowOperand (text : String) (value : Eval Value) (row? : Option (Eval (Option (List Value)))) :
    RowOperand :=
  ⟨text, value, row?.getD (return some [← value])⟩

/-- An item of a list with which rows of some width are compared. Only wider rows are written as
rows; a subquery without a record stands for a row of NULLs. -/
def evalListItem (width : Nat) (item : RowOperand) (isRow : Bool) : Eval (List Value) := do
  let row ←
    if isRow && 1 < width then pure ((← item.row).getD (List.replicate width .null))
    else pure [← item.value]
  if row.length != width then throw (.rowWidth item.text width)
  return row

mutual

/-- The value of an expression. -/
def Expr.eval (e : Expr) (env : Env) : Eval Value :=
  match env.known? e with
  | some v => return v
  | none =>
    match e with
    | .literal l => return l.value
    | .column table name => env.column table name
    | .allColumns => throw (.badWildcard e.text)
    | .tableColumns _ => throw (.badWildcard e.text)
    | .parens e => e.eval env
    | .arith op a b => evalArith op (a.eval env) (b.eval env)
    | .signed sign a => do return sign.eval (← a.eval env)
    | .concat items => evalConcat env "" (operands items)
    | .compare op a b => do
      match a with
      | .rowValue _ =>
        return .truth (← evalRowCompare env.clock op (rowOperand a.text (a.eval env) (a.row? env))
          (rowOperand b.text (b.eval env) (b.row? env)))
      | _ =>
        let x ← a.eval env
        return .truth (x.test env.clock op (← b.eval env))
    | .is negated a b => do
      let x ← a.eval env
      return .truth (Truth.negateIf negated (x.is (← b.eval env)))
    | .between negated a low high => do
      return .truth (← evalBetween env.clock negated (rowOperand a.text (a.eval env) (a.row? env))
        (rowOperand low.text (low.eval env) (low.row? env))
        (rowOperand high.text (high.eval env) (high.row? env)))
    | .like negated a b => do
      let x ← a.eval env
      return .truth (Truth.negateIf negated (x.like (← b.eval env)))
    | .isIn negated a values => do
      let t ← evalQuantified env.clock .equal Truth.any
        (rowOperand a.text (a.eval env) (a.row? env)).row
        fun width => (values.rows? width env).getD (return [[← values.eval env]])
      return .truth (Truth.negateIf negated t)
    | .any op a values => do
      return .truth (← evalQuantified env.clock op Truth.any
        (rowOperand a.text (a.eval env) (a.row? env)).row
        fun width => (values.rows? width env).getD (return [[← values.eval env]]))
    | .all op a values => do
      return .truth (← evalQuantified env.clock op Truth.all
        (rowOperand a.text (a.eval env) (a.row? env)).row
        fun width => (values.rows? width env).getD (return [[← values.eval env]]))
    | .existsIn q => do return .truth (.ofBool !(← q.run env).records.isEmpty)
    | .subquery q => do valueOfResult q (← q.run env)
    | .rowValue _ => throw (.rowWidth e.text 1)
    | .valueList _ => throw (.rowWidth e.text 1)
    | .call name args => evalCall e name (operands args) env
    | .aggregate name distinct args => evalAggregate e name distinct (operands args) env
    | .listAggregate name distinct args order =>
      evalListAggregate e name distinct (operands args) (sortOperands order) env
    | .window name _ _ _ _ => throw (.functionNotAllowed name)
    | .case operand branches otherwise =>
      evalCase env.clock (optionEval operand env) (branchEvals branches env)
        (optionEval otherwise env)
    | .logic op a b => evalLogic op (a.eval env) (b.eval env)
    | .not a => do return .truth (← a.eval env).toTruth.not
    | .variable name => do (← get).variableValue name
    | .assign name value => do assignVariable name (← value.eval env)

/-- The row for which a row or a subquery stands. -/
def Expr.row? (e : Expr) (env : Env) : Option (Eval (Option (List Value))) :=
  match e with
  | .rowValue items => some (some <$> evalAll (operands items) env)
  | .subquery q => some do rowOfResult q (← q.run env)
  | _ => none

/-- The rows for which a list or a subquery stands. -/
def Expr.rows? (e : Expr) (width : Nat) (env : Env) : Option (Eval (List (List Value))) :=
  match e with
  | .valueList items => some (listRows items width env)
  | .subquery q => some do rowsOfResult q width (← q.run env)
  | _ => none

def listRows : List Expr → Nat → Env → Eval (List (List Value))
  | [], _, _ => return []
  | item :: items, width, env => do
    let row? := item.row? env
    let row ← evalListItem width (rowOperand item.text (item.eval env) row?) row?.isSome
    return row :: (← listRows items width env)

/-- Expressions with their meanings. -/
def operands : List Expr → List Operand
  | [] => []
  | e :: es => ⟨e, fun env => e.eval env⟩ :: operands es

def optionEval : Option Expr → Env → Option (Eval Value)
  | none, _ => none
  | some e, env => some (e.eval env)

def optionOperand : Option Expr → Option Operand
  | none => none
  | some e => some ⟨e, fun env => e.eval env⟩

def branchEvals : List Branch → Env → List (Eval Value × Eval Value)
  | [], _ => []
  | .mk condition result :: branches, env =>
    (condition.eval env, result.eval env) :: branchEvals branches env

def sortOperands : List OrderItem → List SortOperand
  | [] => []
  | .mk key direction nulls :: items =>
    { expr := key, eval := fun env => key.eval env
      order := (OrderItem.mk key direction nulls).keyOrder } :: sortOperands items

/-- The window calls outside subqueries with their meanings, outermost first. -/
def Expr.windowCalls (e : Expr) : List WindowCall :=
  match e with
  | .literal _ | .column _ _ | .allColumns | .tableColumns _ | .existsIn _ | .subquery _
  | .variable _ => []
  | .parens a | .not a | .signed _ a | .assign _ a => a.windowCalls
  | .arith _ a b | .compare _ a b | .logic _ a b | .is _ a b | .like _ a b | .isIn _ a b
  | .any _ a b | .all _ a b => a.windowCalls ++ b.windowCalls
  | .between _ a low high => a.windowCalls ++ low.windowCalls ++ high.windowCalls
  | .concat items | .rowValue items | .valueList items | .call _ items
  | .aggregate _ _ items => listWindows items
  | .listAggregate _ _ args order => listWindows args ++ orderWindows order
  | .window name distinct args partition order =>
    { expr := e, name, distinct, args := operands args, partition := operands partition
      order := sortOperands order } ::
      (listWindows args ++ listWindows partition ++ orderWindows order)
  | .case operand branches otherwise =>
    optionWindows operand ++ branchWindows branches ++ optionWindows otherwise

def listWindows : List Expr → List WindowCall
  | [] => []
  | e :: es => e.windowCalls ++ listWindows es

def optionWindows : Option Expr → List WindowCall
  | none => []
  | some e => e.windowCalls

def orderWindows : List OrderItem → List WindowCall
  | [] => []
  | .mk key _ _ :: items => key.windowCalls ++ orderWindows items

def branchWindows : List Branch → List WindowCall
  | [] => []
  | .mk condition result :: branches =>
    condition.windowCalls ++ result.windowCalls ++ branchWindows branches

/-- The result of a query. -/
def Query.run : Query → Env → Eval View
  | .mk recursive tables body order offset limit, env => do
    let env ← inlineTables tables recursive env
    (← body.run env).finish (orderKeys order) (optionOperand offset) limit.clause? env

/-- The environment with the inline tables of a `WITH` clause. -/
def inlineTables : List InlineDef → Bool → Env → Eval Env
  | [], _, env => return env
  | .mk name columns q :: tables, recursive, env => do
    let v ← inlineTable recursive name columns q.unionParts? (fun env => q.run env) env
    inlineTables tables recursive (env.withInlineTable ⟨name, v⟩)

/-- The two sides of a query that is a union. -/
def Query.unionParts? : Query → Option UnionParts
  | .mk _ _ (.combine .union all left right) _ _ _ =>
    some ⟨all, fun env => left.run env, right, fun env => right.run env⟩
  | _ => none

def Limit.clause? : Limit → Option LimitClause
  | .all => none
  | .rows count percent ties => some ⟨⟨count, fun env => count.eval env⟩, percent, ties⟩

def orderKeys : List OrderItem → List OrderKey
  | [] => []
  | .mk key direction nulls :: items =>
    { expr := key, eval := fun env => key.eval env
      order := (OrderItem.mk key direction nulls).keyOrder
      windows := key.windowCalls } :: orderKeys items

/-- The result of a body, before its sort keys and limits are applied. -/
def Body.run : Body → Env → Eval View
  | .select distinct fields sources condition groups having, env => do
    (← loadAll env (loaders sources)).selectFrom (optionOperand condition) (operands groups)
      (optionOperand having) (selectItems fields) distinct env
  | .combine op all left right, env => do
    let a ← left.run env
    let b ← right.run env
    View.combine env.clock op all right.text a.fix b.fix
  | .nested q, env => q.run env

def selectItems : List Field → List SelectItem
  | [] => []
  | .mk e aliasName :: fields =>
    { expr := e, eval := fun env => e.eval env, aliasName, windows := e.windowCalls } ::
      selectItems fields

def loaders : List Source → List (Env → Eval View)
  | [] => []
  | s :: sources => (fun env => s.load env) :: loaders sources

/-- The view of a source. -/
def Source.load : Source → Env → Eval View
  | .named name aliasName, env => loadNamed name aliasName env
  | .dual _, _ => return .dual
  | .stdin aliasName, env => loadStdin aliasName env
  | .subquery q aliasName columns, env => do sourceOfResult aliasName columns (← q.run env)
  | .values rows aliasName columns, env => loadValues (operandRows rows) aliasName columns env
  | .join kind left right matching, env => do
    let a ← left.load env
    let b ← right.load env
    joinViews kind matching.meaning a b env

def operandRows : List (List Expr) → List (List Operand)
  | [] => []
  | row :: rows => operands row :: operandRows rows

def JoinMatch.meaning : JoinMatch → JoinOn
  | .always => .always
  | .natural => .natural
  | .on e => .condition (.ofOperand ⟨e, fun env => e.eval env⟩)
  | .using names => .columns names

end

end TableQuery
