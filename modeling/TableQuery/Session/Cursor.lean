import TableQuery.Language.Query
import TableQuery.Error

/-!
# Cursors

A cursor walks over the rows of a query that ran when it was opened. A pseudo cursor walks over
given values and is always open.
-/

namespace TableQuery

/-- Where to move a cursor. -/
inductive FetchPosition where
  | next
  | prior
  | first
  | last
  | absolute (n : Int64)
  | relative (n : Int64)
  deriving DecidableEq, Repr

/-- The rows of an open cursor and where it stands: before the first row, at a row or behind the
last one. -/
structure OpenCursor where
  rows : List (List Value)
  index : Int64 := -1
  /-- Whether it was moved since it was opened. -/
  fetched : Bool := false

namespace OpenCursor

/-- Where a move leads, which may be outside the rows. -/
def target (c : OpenCursor) : FetchPosition → Int64
  | .next => c.index + 1
  | .prior => c.index - 1
  | .first => 0
  | .last => Int64.ofNat c.rows.length - 1
  | .absolute n => n
  | .relative n => c.index + n

/-- Moves the cursor and gives the row at its new place. -/
def fetch (c : OpenCursor) (position : FetchPosition) : OpenCursor × Option (List Value) :=
  let count := Int64.ofNat c.rows.length
  let target := c.target position
  if target < 0 then ({ c with index := -1, fetched := true }, none)
  else if count ≤ target then ({ c with index := count, fetched := true }, none)
  else ({ c with index := target, fetched := true }, c.rows[target.toInt.toNat]?)

/-- Whether the cursor stands at a row; open until it is moved. -/
def inRange (c : OpenCursor) : Truth :=
  if c.fetched then .ofBool (0 ≤ c.index && c.index < Int64.ofNat c.rows.length) else .unknown

end OpenCursor

/-- A cursor, which keeps the name under which it was declared. -/
inductive Cursor where
  | declared (name : String) (query : Query) (state : Option OpenCursor)
  | pseudo (name : String) (state : OpenCursor)

namespace Cursor

def name : Cursor → String
  | declared name _ _ => name
  | pseudo name _ => name

/-- The rows and the place of a cursor that is open. -/
def state? : Cursor → Option OpenCursor
  | declared _ _ state => state
  | pseudo _ state => some state

/-- The rows and the place of a cursor. -/
def state (c : Cursor) : Except QueryError OpenCursor :=
  match c.state? with
  | some s => .ok s
  | none => .error (.cursorClosed c.name)

def withState : Cursor → OpenCursor → Cursor
  | declared name query _, s => declared name query (some s)
  | pseudo name _, s => pseudo name s

/-- The query to run when the cursor is opened. -/
def query : Cursor → Except QueryError Query
  | declared _ query none => .ok query
  | declared name _ (some _) => .error (.cursorAlreadyOpen name)
  | pseudo name _ => .error (.pseudoCursor name)

/-- The cursor, open before the first of its rows. -/
def opened (c : Cursor) (rows : List (List Value)) : Except QueryError Cursor :=
  match c.state? with
  | some _ => .error (.cursorAlreadyOpen c.name)
  | none => .ok (c.withState { rows })

/-- The cursor, closed; it may be closed already. -/
def closed : Cursor → Except QueryError Cursor
  | declared name query _ => .ok (declared name query none)
  | pseudo name _ => .error (.pseudoCursor name)

end Cursor

end TableQuery
