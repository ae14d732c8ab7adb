import TableQuery.Evaluation.Join

/-!
# Loading

How the sources of a query become views, and how the inline tables of a `WITH` clause are filled.
-/

namespace TableQuery

/-! ## Sources -/

/-- A table of the catalog, or a view of it under an alias. -/
def renameView (aliasName : Option String) (v : View) : View :=
  match aliasName with
  | some name => v.asTable name []
  | none => v

/-- The view that a name means: an inline table, a view of the session or a table of the catalog. -/
def loadNamed (name : String) (aliasName : Option String) (env : Env) : Eval View := do
  match env.inlineTable? name with
  | some t => return t.view.asTable (aliasName.getD name) []
  | none =>
    match (← get).view? name with
    | some v => return v.asTable (aliasName.getD name) []
    | none => return renameView aliasName (← env.settings.catalog.load name)

/-- The table that stands for standard input. -/
def loadStdin (aliasName : Option String) (env : Env) : Eval View := do
  return renameView aliasName (← env.settings.catalog.loadStdin)

/-- The result of a subquery as a source. -/
def sourceOfResult (aliasName : Option String) (columns : List String) (result : View) :
    Except QueryError View :=
  let name := aliasName.getD ""
  if !columns.isEmpty && columns.length != result.header.width then .error (.columnCount name)
  else .ok (result.asTable name columns)

/-- The rows of a `VALUES` list, which must be equally wide. -/
def evalRows (width : Nat) (env : Env) : List (List Operand) → Eval (List (List Value))
  | [] => return []
  | row :: rows => do
    if row.length != width then
      throw (.rowWidth (Expr.rowValue (row.map Operand.expr)).text width)
    let vs ← evalAll row env
    return vs :: (← evalRows width env rows)

/-- A `VALUES` list as a source. Its columns are named `c1`, `c2` and so on unless named otherwise.
-/
def loadValues (rows : List (List Operand)) (aliasName : Option String) (columns : List String)
    (env : Env) : Eval View := do
  let width := (rows.head?.map List.length).getD 0
  let values ← evalRows width env rows
  let name := aliasName.getD ""
  if !columns.isEmpty && columns.length != width then throw (.columnCount name)
  let names :=
    if columns.isEmpty then (List.range width).map fun i => "c" ++ toString (i + 1) else columns
  return .ofRows (.ofNames name names) values

/-- All sources side by side; without any, the table of one row. -/
def loadAll (env : Env) : List (Env → Eval View) → Eval View
  | [] => return .dual
  | first :: rest => do
    let v ← first env
    rest.foldlM (fun v load => return v.cross (← load env)) v

/-! ## Inline tables -/

/-- The result of the query of an inline table under the names of its columns. -/
def inlineView (name : String) (columns : List String) (result : View) : Except QueryError View :=
  if !columns.isEmpty && columns.length != result.header.width then
    .error (.inlineTableWidth name columns.length)
  else
    .ok (result.asTable name columns)

/-- A union that may define a recursive table: rows to start from and a step to more rows. -/
structure UnionParts where
  all : Bool
  anchor : Env → Eval View
  step : Body
  runStep : Env → Eval View

/-- The records that a round adds: all of them, or those with keys that were not seen before. Gives
the keys that are seen now, too. -/
def freshRecords (clock : Calendar.Clock) (all : Bool) (seen : List String) (rs : List Record) :
    List Record × List String :=
  if all then (rs, seen)
  else
    let fresh := View.uniqueFrom clock seen rs
    (fresh, fresh.map (View.keyOf clock) ++ seen)

/-- The records that the step adds, round by round, until a round adds none. Each round sees the
records of the round before. -/
def recursiveRounds (name : String) (header : Header) (parts : UnionParts) (env : Env) :
    (rounds : Nat) → List String → List Record → Eval (List Record)
  | 0, _, _ => throw (.endlessRecursion name)
  | rounds + 1, seen, working => do
    if working.isEmpty then return []
    let next := (← parts.runStep (env.withRecursive ⟨name, { header, records := working }⟩)).fix
    if next.header.width != header.width then
      throw (.combinedWidth parts.step.text header.width)
    let (fresh, seen) := freshRecords env.clock parts.all seen next.records
    let rest ← recursiveRounds name header parts env rounds seen fresh
    return fresh ++ rest

/-- A recursive table: the records of the anchor and those that the step adds. -/
def recursiveTable (name : String) (columns : List String) (parts : UnionParts) (env : Env) :
    Eval View := do
  let first ← inlineView name columns (← parts.anchor env).fix
  let (fresh, seen) := freshRecords env.clock parts.all [] first.records
  let added ← recursiveRounds name first.header parts env env.settings.rounds seen fresh
  return { header := first.header, records := fresh ++ added }

/-- The view of an inline table. A union that reads the table itself is evaluated in rounds, if that
was asked for. -/
def inlineTable (recursive : Bool) (name : String) (columns : List String)
    (parts? : Option UnionParts) (run : Env → Eval View) (env : Env) : Eval View := do
  match parts? with
  | some parts =>
    if recursive && parts.step.reads name then recursiveTable name columns parts env
    else inlineView name columns (← run env)
  | none => inlineView name columns (← run env)

end TableQuery
