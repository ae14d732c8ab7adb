import TableQuery.Config.Engine
import TableQuery.Evaluation.Meaning
import TableQuery.Language.Grammar

/-!
# Engines and sessions

An engine holds tables, and the frames of all its sessions. A session is a chain of references to
frames: sessions share the frames that both refer to.
-/

namespace TableQuery

open TableQuery.Language

/-- Tables, settings and the frames of all sessions. A frame is referred to by its place. -/
structure Engine where
  settings : Settings := {}
  frames : List Frame := []
  deriving Inhabited

/-- A chain of references to frames: the innermost one and those around it. -/
structure Session where
  innermost : Nat
  outer : List Nat := []
  deriving DecidableEq, Repr

/-- A computation that changes an engine. -/
abbrev Run (α : Type) := ExceptT QueryError (StateM Engine) α

namespace Engine

/-- An engine without tables. -/
def ofConfig (config : EngineConfig) : Except QueryError Engine := do
  return { settings := { clock := ← config.clock, cpu := max 1 (config.cpu.getD 1) } }

/-- Changes the catalog. -/
def updateCatalog (f : Catalog → Except QueryError Catalog) : Run Unit := do
  let engine ← get
  let catalog ← f engine.settings.catalog
  set { engine with settings := { engine.settings with catalog } }

/-- Adds or replaces a table, whose rows must be as wide as its header. -/
def registerTable (name : String) (columns : List String) (rows : List (List Value)) : Run Unit :=
  updateCatalog fun c => c.register name columns rows

/-- Removes a table, and says whether there was one. -/
def dropTable (name : String) : Run Bool := do
  let found := (← get).settings.catalog.tables.contains name
  updateCatalog fun c => .ok { c with tables := c.tables.erase name }
  return found

/-- Sets the table that stands for standard input. -/
def setStdin (columns : List String) (rows : List (List Value)) : Run Unit :=
  updateCatalog fun c => c.setStdin columns rows

/-- The names of the tables in upper case, in order. -/
def tableNames (engine : Engine) : List String :=
  engine.settings.catalog.tables.names

/-- Adds a frame and gives its reference. -/
def addFrame : Run Nat := do
  let engine ← get
  set { engine with frames := engine.frames ++ [({} : Frame)] }
  return engine.frames.length

/-- Opens a session with a frame of its own. -/
def openSession : Run Session := do
  return { innermost := ← addFrame }

/-- The frame of a reference. -/
def frame (engine : Engine) (i : Nat) : Frame :=
  engine.frames.getD i {}

/-- The frames of a session. -/
def scope (engine : Engine) (s : Session) : Scope :=
  ⟨engine.frame s.innermost, s.outer.map engine.frame⟩

/-- Replaces the frames of the given references. -/
def setFrames (engine : Engine) (changes : List (Nat × Frame)) : Engine :=
  let replace (frames : List Frame) (change : Nat × Frame) : List Frame :=
    frames.set change.1 change.2
  { engine with frames := changes.foldl replace engine.frames }

/-- Replaces the frames of a session. -/
def setScope (engine : Engine) (s : Session) (scope : Scope) : Engine :=
  engine.setFrames ((s.innermost :: s.outer).zip scope.frames)

end Engine

namespace Session

/-- The number of frames. -/
def depth (s : Session) : Nat :=
  s.outer.length + 1

/-- Enters a block, which has a frame of its own. -/
def enterBlock (s : Session) : Run Session := do
  return { innermost := ← Engine.addFrame, outer := s.innermost :: s.outer }

/-- Leaves a block; the outermost frame stays. -/
def exitBlock (s : Session) : Session :=
  match s.outer with
  | [] => s
  | frame :: frames => { innermost := frame, outer := frames }

/-- Looks something up in the frames. -/
def read {α : Type} (s : Session) (f : Scope → Except QueryError α) : Run α := do
  f ((← get).scope s)

/-- Changes the frames; if that fails they stay as they are. -/
def update (s : Session) (f : Scope → Except QueryError Scope) : Run Unit := do
  let engine ← get
  set (engine.setScope s (← f (engine.scope s)))

/-- Evaluates within the frames. Assignments before a failure remain. -/
def evaluate {α : Type} (s : Session) (f : Env → Eval α) : Run α := do
  let engine ← get
  let (result, scope) := (f { settings := engine.settings }).run.run (engine.scope s)
  set (engine.setScope s scope)
  result

/-! ## Queries -/

/-- Runs the queries of a text in their order, up to the first that fails. -/
def execute (s : Session) (text : String) : Run (List View) := do
  let queries ← parseQueries text
  s.evaluate fun env => queries.mapM fun q => q.run env

/-- Runs the only query of a text. A text of several queries is refused after they ran. -/
def query (s : Session) (text : String) : Run View := do
  match ← s.execute text with
  | [v] => return v
  | views => throw (.badSyntax (.statementCount views.length) 0)

/-! ## Variables -/

/-- A variable may be named with or without the sign in front of it. -/
def variableName (name : String) : String :=
  match name.toList with
  | '@' :: cs => String.ofList cs
  | _ => name

/-- Declares a variable in the innermost frame. -/
def declareVariable (s : Session) (name : String) (value : Value) : Run Unit :=
  s.update fun scope => scope.declareVariable (variableName name) value

/-- Assigns to the innermost variable of the name. -/
def setVariable (s : Session) (name : String) (value : Value) : Run Unit :=
  s.update fun scope => scope.setVariable (variableName name) value

/-- The value of the innermost variable of the name. -/
def variableValue (s : Session) (name : String) : Run Value :=
  s.read fun scope => scope.variableValue (variableName name)

/-- Removes the innermost variable of the name. -/
def disposeVariable (s : Session) (name : String) : Run Unit :=
  s.update fun scope => scope.disposeVariable (variableName name)

/-! ## Views -/

/-- Declares a view in the innermost frame. -/
def declareView (s : Session) (name : String) (view : View) : Run Unit :=
  s.update fun scope => scope.declareView name view

/-- Declares a view of the result of a query. -/
def createView (s : Session) (name : String) (text : String) : Run Unit := do
  s.declareView name (← s.query text)

/-- Replaces the innermost view of the name. -/
def replaceView (s : Session) (name : String) (view : View) : Run Unit :=
  s.update fun scope => scope.replaceView name view

/-- Removes the innermost view of the name. -/
def disposeView (s : Session) (name : String) : Run Unit :=
  s.update fun scope => scope.disposeView name

/-! ## Cursors -/

/-- Declares a cursor, whose query runs when it is opened. -/
def declareCursor (s : Session) (name : String) (text : String) : Run Unit := do
  let query ← parseQuery text
  s.update fun scope => scope.declareCursor (.declared name query none)

/-- Declares a cursor over values, which is always open. -/
def declarePseudoCursor (s : Session) (name : String) (values : List Value) : Run Unit :=
  s.update fun scope => scope.declareCursor (.pseudo name { rows := values.map fun v => [v] })

/-- Runs the query of a cursor and puts it before the first row. -/
def openCursor (s : Session) (name : String) : Run Unit := do
  let query ← s.read fun scope => scope.cursorQuery name
  let v ← s.evaluate query.run
  s.update fun scope => scope.openCursor name v.rows

/-- Closes a cursor and forgets its rows. -/
def closeCursor (s : Session) (name : String) : Run Unit :=
  s.update fun scope => scope.closeCursor name

/-- Removes the innermost cursor of the name, which must have a query. -/
def disposeCursor (s : Session) (name : String) : Run Unit :=
  s.update fun scope => scope.disposeCursor name

/-- Moves a cursor and gives the row at its new place. -/
def fetchCursor (s : Session) (name : String) (position : FetchPosition) :
    Run (Option (List Value)) := do
  let engine ← get
  let (scope, row) ← (engine.scope s).fetchCursor name position
  set (engine.setScope s scope)
  return row

/-- The number of rows of an open cursor. -/
def cursorCount (s : Session) (name : String) : Run Nat :=
  s.read fun scope => scope.cursorCount name

/-- Whether a cursor has rows to move over. -/
def isCursorOpen (s : Session) (name : String) : Run Bool :=
  s.read fun scope => scope.isCursorOpen name

/-- Whether the last move of an open cursor found a row. -/
def isCursorInRange (s : Session) (name : String) : Run Truth :=
  s.read fun scope => scope.isCursorInRange name

/-! ## Functions -/

/-- Declares a function in the innermost frame. -/
def declareFunction (s : Session) (f : UserFunction) : Run Unit :=
  s.update fun scope => scope.declareFunction f

end Session

end TableQuery
