import TableQuery.Session.Scope
import TableQuery.Table.Catalog
import TableQuery.Language.Canonical

/-!
# Environments

What an expression is evaluated in: the records bound by the queries around it, the inline tables in
reach, and what the engine offers to all of its queries. Variables may be assigned on the way, so an
evaluation also takes and gives the scope of the session, even if it fails.
-/

namespace TableQuery

open Calendar Text

/-- A computation that may fail and that may assign variables. What was assigned before a failure
stays assigned. -/
abbrev Eval (α : Type) := ExceptT QueryError (StateM Scope) α

/-- What an engine offers to all of its queries. -/
structure Settings where
  clock : Clock := {}
  /-- Into how many chunks a join may be split at most. -/
  cpu : Nat := 1
  catalog : Catalog := {}
  /-- After how many rounds a recursive table counts as endless. -/
  rounds : Nat := 1000000000000

/-- A record to which column references may refer. -/
structure Binding where
  header : Header
  record : Record
  grouped : Bool := false

/-- A table that a `WITH` clause defines. -/
structure InlineTable where
  name : String
  view : View

/-- What an expression is evaluated in. The innermost binding and the latest inline table come
first. -/
structure Env where
  settings : Settings := {}
  bindings : List Binding := []
  inlineTables : List InlineTable := []
  /-- The rows that the last round of a recursive table gave. -/
  recursive : Option InlineTable := none

namespace Env

def clock (env : Env) : Clock :=
  env.settings.clock

/-- Binds one more record, innermost. -/
def bind (env : Env) (binding : Binding) : Env :=
  { env with bindings := binding :: env.bindings }

/-- Binds a row in place of the innermost record. -/
def rebind (env : Env) (header : Header) (record : Record) : Env :=
  { env with bindings := { header, record } :: env.bindings.tail }

/-- The environment without any records. -/
def detached (env : Env) : Env :=
  { env with bindings := [] }

/-- The environment in which an inline table is known, in front of older ones of its name. -/
def withInlineTable (env : Env) (table : InlineTable) : Env :=
  { env with inlineTables := table :: env.inlineTables }

/-- The environment in which a table that is being built can be read. -/
def withRecursive (env : Env) (table : InlineTable) : Env :=
  { env with recursive := some table }

/-- The inline table of a name; the recursive one comes first. -/
def inlineTable? (env : Env) (name : String) : Option InlineTable :=
  (env.recursive.toList ++ env.inlineTables).find? fun t => sameIgnoringCase t.name name

/-- The column that a reference means in the first of the bindings that has one. -/
def columnIn (table : Option String) (name : String) : List Binding → Except QueryError Value
  | [] => .error (.noSuchField (referenceText table name))
  | b :: bs =>
    match b.header.find? table name with
    | .error e => .error e
    | .ok none => columnIn table name bs
    | .ok (some i) =>
      let column := b.header.columns[i]?.getD {}
      if b.grouped && column.fromTable && !column.groupKey then
        .error (.notGroupKey (referenceText table name))
      else
        .ok (b.record.value i)

/-- The value of the column that a reference means, innermost binding first. -/
def column (env : Env) (table : Option String) (name : String) : Except QueryError Value :=
  columnIn table name env.bindings

/-- The value that a column of the innermost record holds already for the expression of this text.
-/
def computed? (env : Env) (text : Unit → String) : Option Value :=
  match env.bindings with
  | [] => none
  | b :: _ =>
    if b.header.hasComputed then (b.header.findComputed? (text ())).map b.record.value else none

/-- The innermost record, which must be a group. -/
def group (env : Env) (function : String) : Except QueryError Binding :=
  match env.bindings with
  | [] => .error (.functionNotAllowed function)
  | b :: _ => if b.grouped then .ok b else .error (.notGrouped function)

end Env

/-- An expression together with its meaning. -/
structure Operand where
  expr : Expr
  eval : Env → Eval Value

namespace Operand

/-- The canonical text of the expression. -/
def text (o : Operand) : String :=
  o.expr.text

/-- The values of the operand for each of the bindings. -/
def evalEach (o : Operand) (env : Env) (bindings : List Binding) : Eval (List Value) :=
  bindings.mapM fun b => o.eval (env.bind b)

end Operand

/-- The values of all operands. -/
def evalAll (operands : List Operand) (env : Env) : Eval (List Value) :=
  operands.mapM fun o => o.eval env

/-- An expression by which rows are sorted. -/
structure SortOperand extends Operand where
  order : KeyOrder

/-- The orders of sort operands. -/
def keyOrders (items : List SortOperand) : List KeyOrder :=
  items.map SortOperand.order

/-- Sorts things by tuples of sort keys. -/
def sortByKeys {α : Type} (orders : List KeyOrder) (items : List (List SortKey × α)) :
    List (List SortKey × α) :=
  stableSort (fun a b => SortKey.tupleLess orders a.1 b.1) items

/-- The bindings of the records of a view. -/
def View.bindings (v : View) : List Binding :=
  v.records.map fun record => { header := v.header, record, grouped := v.grouped }

end TableQuery
