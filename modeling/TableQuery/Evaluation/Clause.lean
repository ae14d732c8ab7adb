import TableQuery.Evaluation.Window

/-!
# Clauses

What the clauses of a query do to its view, in the order in which they are applied: `WHERE`,
`GROUP BY`, `HAVING`, the select list, `ORDER BY`, `OFFSET` and `LIMIT`.
-/

namespace TableQuery

open Calendar

/-! ## Conditions -/

/-- Whether a condition holds for a binding. -/
def Operand.holdsAt (condition : Operand) (env : Env) (b : Binding) : Eval Bool := do
  return (← condition.eval (env.bind b)).toTruth.holds

/-- Keeps the records at the given indices, which must ascend; then none of them is out of range when
it is taken. -/
def View.extract (v : View) (indices : List Nat) : View :=
  { v with records := ((takeOut? v.records.toArray indices).map Prod.fst).getD [] }

/-- Keeps the records for which a condition is TRUE. -/
def View.keepWhere (v : View) (condition : Operand) (env : Env) : Eval View := do
  let flags ← v.bindings.mapM fun b => condition.holdsAt env b
  return v.extract (flaggedIndices flags)

/-- Whether an error says that an aggregate needs groups. -/
def QueryError.asksForGroups : QueryError → Bool
  | notGrouped _ => true
  | _ => false

/-- Keeps the groups for which a condition is TRUE. If the condition needs groups and there are
none, the whole view becomes one. -/
def View.having (v : View) (condition : Operand) (env : Env) : Eval View :=
  tryCatch (v.keepWhere condition env) fun e =>
    if e.asksForGroups && !v.grouped then v.groupAll.keepWhere condition env else throw e

/-! ## Groups -/

/-- Marks or adds the key column of a grouping expression. Gives the header and whether the key
needs a cell of its own. -/
def Header.addGroupKey (h : Header) (item : Expr) : Except QueryError (Header × Bool) := do
  match item with
  | .column table name =>
    match ← h.find? table name with
    | some i => return (h.modify i fun c => { c with groupKey := true }, false)
    | none => return (h, false)
  | e =>
    if (h.findComputed? e.text).isSome then return (h, false)
    else return (h.push { Column.computed e.text with groupKey := true }, true)

/-- Marks or adds the key columns of grouping expressions. Gives the header and for each key whether
it needs a cell of its own. -/
def Header.addGroupKeys (h : Header) : List Expr → Except QueryError (Header × List Bool)
  | [] => .ok (h, [])
  | item :: items => do
    let (h, own) ← h.addGroupKey item
    let (h, owns) ← h.addGroupKeys items
    return (h, own :: owns)

/-- Groups the records by the values of expressions, groups in the order of their first members. -/
def View.groupBy (v : View) (items : List Operand) (env : Env) : Eval View := do
  let keys ← v.bindings.mapM fun b => evalAll items (env.bind b)
  let (header, owns) ← v.header.addGroupKeys (items.map Operand.expr)
  let extend (r : Record) (key : List Value) : Record :=
    r.append (.ofValues (((key.zip owns).filter Prod.snd).map Prod.fst))
  let rows := v.records.zipWith extend keys
  let groups := (groupIndices env.clock keys).map fun indices =>
    Record.group header.width (indices.filterMap fun i => rows[i]?)
  return { v with header, records := groups, grouped := true }

/-! ## The select list -/

/-- A field of the select list with the meaning of its expression and of the window calls in it. -/
structure SelectItem extends Operand where
  aliasName : Option String
  windows : List WindowCall

/-- The columns that a field selects. What no column holds yet is computed. -/
def SelectItem.resolve (item : SelectItem) (env : Env) : Stage (List Nat) := do
  match item.expr with
  | .allColumns => return (← Stage.view).header.tableColumns
  | .tableColumns table => (← Stage.view).header.columnsOf table
  | .column table name =>
    let i ←
      match ← Stage.columnIndex? table name with
      | some i => pure i
      | none => Stage.computedColumn item.toOperand env
    Stage.addAlias i item.aliasName
    return [i]
  | _ =>
    let i ← Stage.computedColumn item.toOperand env
    Stage.addAlias i item.aliasName
    return [i]

/-- The columns that all fields select, after the window calls in them are computed. -/
def resolveItems (items : List SelectItem) (env : Env) : Stage (List Nat) := do
  runWindows (items.flatMap SelectItem.windows) env
  let indices ← items.mapM fun item => item.resolve env
  return indices.flatten

/-- Whether a field aggregates. -/
def aggregates (items : List SelectItem) : Bool :=
  items.any fun item => item.expr.hasAggregate

/-- The view as a single group, if a field aggregates and there are no groups. -/
def View.groupFor (items : List SelectItem) (v : View) : View :=
  if !v.grouped && aggregates items then v.groupAll else v

/-- The columns that all fields select. An aggregate of the application is only found out when it
fails; then the columns computed so far are dropped and the whole view becomes one group. -/
def resolveOrGroup (items : List SelectItem) (env : Env) : Stage (List Nat) := do
  let width := (← Stage.view).header.width
  tryCatch (resolveItems items env) fun e => do
    if e.asksForGroups && !(← Stage.view).grouped then
      Stage.modifyView fun v => (v.takeColumns width).groupAll
      resolveItems items env
    else
      throw e

/-- Selects columns. -/
def select (items : List SelectItem) (env : Env) : Stage Unit := do
  Stage.modifyView (View.groupFor items)
  let indices ← resolveOrGroup items env
  Stage.modifyView fun v => { v with selected := some indices }

/-! ## Order -/

/-- A sort key of a query with the window calls in it. -/
structure OrderKey extends SortOperand where
  windows : List WindowCall

/-- The column at a place of the select list, counted from 1. -/
def View.columnAt? (v : View) (place : Int64) : Option Nat :=
  if place < 1 then none
  else
    let p := (place - 1).toInt.toNat
    match v.selected with
    | some indices => indices[p]?
    | none => if p < v.header.width then some p else none

/-- The column of a sort key: an integer is a place in the select list, all else is an expression.
-/
def OrderKey.resolve (key : OrderKey) (env : Env) : Stage Nat := do
  match key.expr with
  | .literal (.integer place) =>
    match (← Stage.view).columnAt? place with
    | some i => return i
    | none => throw (.noSuchField (Value.integerText place))
  | .column table name =>
    match ← Stage.columnIndex? table name with
    | some i => return i
    | none => Stage.computedColumn key.toOperand env
  | _ =>
    runWindows key.windows env
    Stage.computedColumn key.toOperand env

/-- Sorts the records and keeps their sort keys. -/
def View.sortBy (v : View) (clock : Clock) (orders : List KeyOrder) (indices : List Nat) : View :=
  let keyed := v.records.map fun r => (SortKey.ofValues clock (indices.map r.value), r)
  let sorted := sortByKeys orders keyed
  { v with records := sorted.map Prod.snd, sortKeys := some (sorted.map Prod.fst) }

/-- Sorts the view by the keys of an `ORDER BY` clause. -/
def orderBy (keys : List OrderKey) (env : Env) : Stage Unit := do
  let indices ← keys.mapM fun key => key.resolve env
  let orders := keyOrders (keys.map OrderKey.toSortOperand)
  Stage.modifyView fun v => v.sortBy env.clock orders indices

/-! ## Slices -/

/-- A count of rows; negative ones count as zero. -/
def countOf (i : Int64) : Nat :=
  i.toInt.toNat

/-- Drops as many records as an expression says. -/
def View.offset (v : View) (o : Operand) (env : Env) : Eval View := do
  match (← o.eval env).toInteger? with
  | some n => return v.drop (countOf n)
  | none => throw (.badOffset o.text)

/-- A `LIMIT` clause with the meaning of its expression. -/
structure LimitClause where
  count : Operand
  percent : Bool
  ties : Bool

/-- Keeps as many records as a `LIMIT` clause says. -/
def View.limit (v : View) (clause : LimitClause) (env : Env) : Eval View := do
  let value ← clause.count.eval env
  let count ←
    if clause.percent then
      match value.toFloat? with
      | some p => pure (v.percentCount p)
      | none => throw (.badPercentage clause.count.text)
    else
      match value.toInteger? with
      | some n => pure (countOf n)
      | none => throw (.badLimit clause.count.text)
  return v.take count clause.ties

/-! ## All clauses -/

/-- Applies a clause to a view, if there is one. -/
def View.clause {α : Type} (v : View) (part : Option α) (apply : α → Eval View) : Eval View :=
  match part with
  | some a => apply a
  | none => return v

/-- What the clauses of a `SELECT` make of the view of its sources. -/
def View.selectFrom (v : View) (condition : Option Operand) (groups : List Operand)
    (having : Option Operand) (items : List SelectItem) (distinct : Bool) (env : Env) :
    Eval View := do
  let v ← v.clause condition fun c => v.keepWhere c env
  let v ← if groups.isEmpty then pure v else v.groupBy groups env
  let v ← v.clause having fun c => v.having c env
  let v ← (select items env).runOn v
  return if distinct then v.distinct env.clock else v

/-- What the sort keys and limits of a query make of the result of its body. -/
def View.finish (v : View) (keys : List OrderKey) (offset : Option Operand)
    (limit : Option LimitClause) (env : Env) : Eval View := do
  let v ← if keys.isEmpty then pure v else (orderBy keys env).runOn v
  let v ← v.clause offset fun o => v.offset o env
  let v ← v.clause limit fun c => v.limit c env
  return v.fix

end TableQuery
