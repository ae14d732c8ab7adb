import TableQuery.Evaluation.Env

/-!
# Stages

The stages of a query that work on its view step by step. What a stage did to the view before it
fails remains done: implicit grouping starts from there.
-/

namespace TableQuery

/-- A computation that changes a view. -/
abbrev Stage (α : Type) := ExceptT QueryError (StateT View (StateM Scope)) α

namespace Stage

/-- An evaluation as a stage that leaves the view alone. -/
def ofEval {α : Type} (x : Eval α) : Stage α :=
  ExceptT.mk fun v => do
    let r ← x.run
    return (r, v)

instance : MonadLift Eval Stage where
  monadLift := ofEval

/-- The view that a stage makes of a view. -/
def runOn (stage : Stage Unit) (v : View) : Eval View := do
  let (r, v) ← ExceptT.lift (stage.run.run v)
  match r with
  | .ok () => return v
  | .error e => throw e

/-- The view. -/
def view : Stage View :=
  getThe View

/-- Changes the view. -/
def modifyView (f : View → View) : Stage Unit :=
  modifyThe View f

/-- Adds a computed column for an expression, unless it is there, and gives its index. -/
def computedColumn (o : Operand) (env : Env) : Stage Nat := do
  let v ← view
  match v.header.findComputed? o.text with
  | some i => return i
  | none =>
    let values ← o.evalEach env v.bindings
    modifyView fun v => v.pushColumn (.computed o.text) values
    return v.header.width

/-- Adds an alias to a column. -/
def addAlias (i : Nat) (aliasName : Option String) : Stage Unit :=
  match aliasName with
  | some name => modifyView fun v => { v with header := v.header.modify i fun c => c.addAlias name }
  | none => return ()

/-- The index of the column that a reference means, if the view has it. In a grouped view it must be
a key, unless there is no group. -/
def columnIndex? (table : Option String) (name : String) : Stage (Option Nat) := do
  let v ← view
  match ← v.header.find? table name with
  | none => return none
  | some i =>
    let c := v.header.columns[i]?.getD {}
    if v.grouped && c.fromTable && !c.groupKey && !v.records.isEmpty then
      throw (.notGroupKey (referenceText table name))
    else
      return some i

end Stage

end TableQuery
