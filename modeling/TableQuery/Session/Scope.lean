import TableQuery.Session.Cursor
import TableQuery.Table.Catalog

/-!
# Scopes

What queries see of a session: a chain of frames, one for each block that was entered. Declarations
go into the innermost frame; a name means its innermost declaration.
-/

namespace TableQuery

/-- What a function of the application does with its arguments. -/
inductive FunctionBody where
  | scalar (f : List Value → Except QueryError Value)
  /-- The values of a group come first, then the further arguments. -/
  | aggregate (f : List Value → List Value → Except QueryError Value)

/-- A function that the application declares. An aggregate takes its arguments besides the values
that it reduces. -/
structure UserFunction where
  name : String
  argumentCount : Nat
  body : FunctionBody

namespace UserFunction

/-- A function under the upper case of a name. -/
def ofBody (name : String) (argumentCount : Nat) (body : FunctionBody) : UserFunction :=
  ⟨Text.upper name, argumentCount, body⟩

/-- Fails unless the function takes `n` arguments, the values that it reduces not counted. -/
def checkArguments (f : UserFunction) (n : Nat) : Except QueryError Unit :=
  checkArity f.name (.exactly f.argumentCount) n

end UserFunction

/-- The declarations of a block. -/
structure Frame where
  vars : NameMap Value := {}
  views : NameMap View := {}
  cursors : NameMap Cursor := {}
  functions : NameMap UserFunction := {}
  deriving Inhabited

/-- A chain of frames: the innermost one and those around it. -/
structure Scope where
  innermost : Frame := {}
  outer : List Frame := []
  deriving Inhabited

namespace Scope

/-- The frames, innermost first. -/
def frames (s : Scope) : List Frame :=
  s.innermost :: s.outer

/-- The first thing found in a frame, innermost first. -/
def find? {α : Type} (s : Scope) (f : Frame → Option α) : Option α :=
  s.frames.findSome? f

/-- Changes the innermost frame in which `f` finds something to change. -/
def updateFrames (f : Frame → Option Frame) : List Frame → Option (List Frame)
  | [] => none
  | frame :: frames =>
    match f frame with
    | some changed => some (changed :: frames)
    | none => (updateFrames f frames).map (frame :: ·)

/-- Changes the innermost frame in which `f` finds something to change, if there is one. -/
def update? (s : Scope) (f : Frame → Option Frame) : Option Scope :=
  match updateFrames f s.frames with
  | some (innermost :: outer) => some ⟨innermost, outer⟩
  | _ => none

/-- Changes a frame, or fails if none declares the name. -/
def update (s : Scope) (missing : QueryError) (f : Frame → Option Frame) :
    Except QueryError Scope :=
  match s.update? f with
  | some s => .ok s
  | none => .error missing

/-! ## Variables -/

/-- Declares a variable in the innermost frame, which must not hold one of the name. -/
def declareVariable (s : Scope) (name : String) (value : Value) : Except QueryError Scope :=
  let vars := s.innermost.vars
  if vars.contains name then .error (.variableRedeclared name)
  else .ok { s with innermost := { s.innermost with vars := vars.insert name value } }

/-- The value of the innermost variable of the name. -/
def variableValue (s : Scope) (name : String) : Except QueryError Value :=
  match s.find? fun frame => frame.vars.get? name with
  | some value => .ok value
  | none => .error (.undeclaredVariable name)

/-- Assigns to the innermost variable of the name. -/
def setVariable (s : Scope) (name : String) (value : Value) : Except QueryError Scope :=
  s.update (.undeclaredVariable name) fun frame =>
    if frame.vars.contains name then
      some { frame with vars := frame.vars.insert name value }
    else
      none

/-- Removes the innermost variable of the name. -/
def disposeVariable (s : Scope) (name : String) : Except QueryError Scope :=
  s.update (.undeclaredVariable name) fun frame =>
    if frame.vars.contains name then
      some { frame with vars := frame.vars.erase name }
    else
      none

/-! ## Views -/

/-- Declares a view in the innermost frame, which must not hold one of the name. -/
def declareView (s : Scope) (name : String) (view : View) : Except QueryError Scope :=
  let views := s.innermost.views
  if views.contains name then .error (.viewRedeclared name)
  else .ok { s with innermost := { s.innermost with views := views.insert name view } }

/-- The innermost view of the name. -/
def view? (s : Scope) (name : String) : Option View :=
  s.find? fun frame => frame.views.get? name

/-- Replaces the innermost view of the name. -/
def replaceView (s : Scope) (name : String) (view : View) : Except QueryError Scope :=
  s.update (.undeclaredView name) fun frame =>
    if frame.views.contains name then some { frame with views := frame.views.insert name view }
    else none

/-- Removes the innermost view of the name. -/
def disposeView (s : Scope) (name : String) : Except QueryError Scope :=
  s.update (.undeclaredView name) fun frame =>
    if frame.views.contains name then some { frame with views := frame.views.erase name }
    else none

/-! ## Cursors -/

/-- Declares a cursor in the innermost frame, which must not hold one of the name. -/
def declareCursor (s : Scope) (cursor : Cursor) : Except QueryError Scope :=
  let cursors := s.innermost.cursors
  if cursors.contains cursor.name then .error (.cursorRedeclared cursor.name)
  else
    .ok { s with innermost := { s.innermost with cursors := cursors.insert cursor.name cursor } }

/-- The innermost cursor of the name. -/
def cursor (s : Scope) (name : String) : Except QueryError Cursor :=
  match s.find? fun frame => frame.cursors.get? name with
  | some cursor => .ok cursor
  | none => .error (.undeclaredCursor name)

/-- Replaces the innermost cursor of the name. -/
def setCursor (s : Scope) (name : String) (cursor : Cursor) : Except QueryError Scope :=
  s.update (.undeclaredCursor name) fun frame =>
    if frame.cursors.contains name then
      some { frame with cursors := frame.cursors.insert name cursor }
    else
      none

/-- The query to run when a cursor is opened. -/
def cursorQuery (s : Scope) (name : String) : Except QueryError Query := do
  (← s.cursor name).query

/-- Opens a cursor over the rows of its query. -/
def openCursor (s : Scope) (name : String) (rows : List (List Value)) :
    Except QueryError Scope := do
  s.setCursor name (← (← s.cursor name).opened rows)

/-- Closes a cursor; pseudo cursors refuse. -/
def closeCursor (s : Scope) (name : String) : Except QueryError Scope := do
  s.setCursor name (← (← s.cursor name).closed)

/-- Removes a cursor; pseudo cursors stay. -/
def disposeCursor (s : Scope) (name : String) : Except QueryError Scope := do
  match ← s.cursor name with
  | .pseudo declaredName _ => throw (.pseudoCursor declaredName)
  | .declared .. =>
    s.update (.undeclaredCursor name) fun frame =>
      if frame.cursors.contains name then some { frame with cursors := frame.cursors.erase name }
      else none

/-- Moves a cursor and gives the row at its new place. -/
def fetchCursor (s : Scope) (name : String) (position : FetchPosition) :
    Except QueryError (Scope × Option (List Value)) := do
  let cursor ← s.cursor name
  let (state, row) := (← cursor.state).fetch position
  return (← s.setCursor name (cursor.withState state), row)

/-- Whether a cursor has rows to move over. -/
def isCursorOpen (s : Scope) (name : String) : Except QueryError Bool := do
  return (← s.cursor name).state?.isSome

/-- Whether the last move of an open cursor found a row. -/
def isCursorInRange (s : Scope) (name : String) : Except QueryError Truth := do
  return (← (← s.cursor name).state).inRange

/-- The number of rows of an open cursor. -/
def cursorCount (s : Scope) (name : String) : Except QueryError Nat := do
  return (← (← s.cursor name).state).rows.length

/-! ## Functions -/

/-- Declares a function in the innermost frame, which must not hold one of the name. -/
def declareFunction (s : Scope) (f : UserFunction) : Except QueryError Scope :=
  let functions := s.innermost.functions
  if functions.contains f.name then .error (.functionRedeclared f.name)
  else .ok { s with innermost := { s.innermost with functions := functions.insert f.name f } }

/-- The innermost function of the name. -/
def function? (s : Scope) (name : String) : Option UserFunction :=
  s.find? fun frame => frame.functions.get? name

end Scope

end TableQuery
