import TableQuery.Evaluation.Env
import TableQuery.Function.Aggregate
import TableQuery.Function.Scalar

/-!
# Function calls

Scalar calls evaluate their arguments. Aggregate calls evaluate their first argument for every
member of the innermost record, which must be a group.
-/

namespace TableQuery

/-- The function of the application that has a name. -/
def userFunction? (name : String) : Eval (Option UserFunction) := do
  return (← get).function? name

/-- The values of an operand for rows that stand in place of the innermost record. -/
def evalMembers (o : Operand) (env : Env) (header : Header) (rows : List Record) :
    Eval (List Value) :=
  rows.mapM fun row => o.eval (env.rebind header row)

/-- Drops equivalent values if asked to. -/
def distinctIf (clock : Calendar.Clock) (distinct : Bool) (vs : List Value) : List Value :=
  if distinct then distinctValues clock vs else vs

/-- Whether an aggregate counts the members of the group without looking at them: `COUNT` of `*` or
of a literal other than NULL. A wildcard has no other use. -/
def countsMembers (call : Expr) (name : String) (argument : Expr) : Except QueryError Bool :=
  let counting := Aggregate.ofName? name == some .count
  match argument with
  | .allColumns => if counting then .ok true else .error (.badWildcard call.text)
  | .tableColumns _ => .error (.badWildcard call.text)
  | .literal .null => .ok false
  | .literal _ => .ok counting
  | _ => .ok false

/-- The value of `reduce` on the values of an operand over the members of the innermost group. -/
def evalOverGroup (call : Expr) (name : String) (distinct : Bool) (argument : Operand) (env : Env)
    (reduce : List Value → Eval Value) : Eval Value := do
  let group ← env.group name
  if ← countsMembers call name argument.expr then
    return .ofNat group.record.groupSize
  else if argument.expr.hasAggregate then
    throw (.nestedAggregate call.text)
  else
    let vs ← evalMembers argument env group.header group.record.members
    reduce (distinctIf env.clock distinct vs)

/-- The value of an aggregate call. Further arguments of an aggregate of the application are
evaluated once. -/
def evalAggregate (call : Expr) (name : String) (distinct : Bool) (args : List Operand)
    (env : Env) : Eval Value := do
  match Aggregate.ofName? name, args with
  | some f, argument :: _ =>
    checkArity name (.exactly 1) args.length
    evalOverGroup call name distinct argument env fun vs => return f.eval env.clock vs
  | some _, [] => throw (.argumentCount name (.exactly 1))
  | none, _ =>
    match ← userFunction? name, args with
    | some ⟨_, _, .scalar _⟩, _ => throw (.noSuchFunction name)
    | none, _ => throw (.noSuchFunction name)
    | some ⟨_, _, .aggregate _⟩, [] => throw (.argumentCount name (.atLeast 1))
    | some f@⟨_, _, .aggregate body⟩, argument :: further =>
      f.checkArguments further.length
      evalOverGroup call name distinct argument env fun vs => do
        let extra ← evalAll further env
        body vs extra

/-- The value of a call. Functions of the application come after the built-in ones. -/
def evalCall (call : Expr) (name : String) (args : List Operand) (env : Env) : Eval Value := do
  match ScalarFunction.ofName? name with
  | some f => f.call env.clock name (← evalAll args env)
  | none =>
    match ← userFunction? name with
    | none => throw (.noSuchFunction name)
    | some ⟨_, _, .aggregate _⟩ => evalAggregate call name false args env
    | some f@⟨_, _, .scalar body⟩ =>
      f.checkArguments args.length
      body (← evalAll args env)

/-- The separator of a call without one. -/
def defaultSeparator (name : String) : String :=
  if Text.sameIgnoringCase name "GROUP_CONCAT" then "," else ""

/-- The sort keys of a row in place of the innermost record. -/
def evalSortKeys (order : List SortOperand) (env : Env) : Eval (List SortKey) := do
  let vs ← order.mapM fun o => o.eval env
  return SortKey.ofValues env.clock vs

/-- Rows in the order of sort operands, which are evaluated with each row in place of the innermost
record. -/
def sortMembers (order : List SortOperand) (env : Env) (header : Header) (rows : List Record) :
    Eval (List Record) := do
  if order.isEmpty then return rows
  let keys ← rows.mapM fun row => evalSortKeys order (env.rebind header row)
  return (sortByKeys (keyOrders order) (keys.zip rows)).map Prod.snd

/-- The separator of a call that joins texts: its second argument, which must have a text. -/
def evalSeparator (name : String) (further : List Operand) (env : Env) : Eval String :=
  match further with
  | [] => return defaultSeparator name
  | o :: _ => do
    match (← o.eval env).toText? with
    | some s => return s
    | none => throw (.badArgument name 1 .text)

/-- The texts of an operand over the members of the innermost group, joined in their order. -/
def evalJoined (call : Expr) (name : String) (distinct : Bool) (argument : Operand)
    (order : List SortOperand) (env : Env) (separator : String) : Eval Value := do
  let group ← env.group name
  if argument.expr.hasAggregate then
    throw (.nestedAggregate call.text)
  else
    let rows ← sortMembers order env group.header group.record.members
    let vs ← evalMembers argument env group.header rows
    return joinTexts separator (distinctIf env.clock distinct vs)

/-- The value of a call that joins the texts of a group. -/
def evalListAggregate (call : Expr) (name : String) (distinct : Bool) (args : List Operand)
    (order : List SortOperand) (env : Env) : Eval Value := do
  checkArity name (.between 1 2) args.length
  match args with
  | [] => return .null
  | argument :: further =>
    let separator ← evalSeparator name further env
    evalJoined call name distinct argument order env separator

end TableQuery
