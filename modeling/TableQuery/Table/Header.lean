import TableQuery.Error
import TableQuery.Text.Case

/-!
# Headers

What is known about the columns of a table or a result. Names in queries are resolved here; letters
of ASCII match in either case.
-/

namespace TableQuery

open Text

/-- A column. A computed column is named by the canonical text of its expression and belongs to no
table. -/
structure Column where
  /-- The name by which its table is referred to. -/
  table : String := ""
  name : String := ""
  aliases : List String := []
  /-- Its place in its table, counted from 1; 0 if it is computed. -/
  number : Nat := 0
  /-- Whether it was read from a table. -/
  fromTable : Bool := false
  /-- Whether it merges the columns that a join paired by name. -/
  joined : Bool := false
  /-- Whether it is reached by its qualified name only. -/
  hidden : Bool := false
  groupKey : Bool := false
  deriving DecidableEq, Repr, Inhabited

namespace Column

/-- The name under which the column is shown. -/
def label (c : Column) : String :=
  c.aliases.headD c.name

def hasAlias (c : Column) (name : String) : Bool :=
  c.aliases.any fun a => sameIgnoringCase a name

/-- Adds an alias unless the column has it. -/
def addAlias (c : Column) (name : String) : Column :=
  if c.hasAlias name then c else { c with aliases := c.aliases ++ [name] }

/-- Whether a reference means this column. A qualified one needs the name of the table and the
column and never means a merged column; an unqualified one needs the name or an alias of a visible
column. -/
def isMeantBy (c : Column) (table : Option String) (name : String) : Bool :=
  match table with
  | some t => !c.joined && sameIgnoringCase c.table t && sameIgnoringCase c.name name
  | none => !c.hidden && (sameIgnoringCase c.name name || c.hasAlias name)

/-- The computed column of an expression. -/
def computed (text : String) : Column :=
  { name := text }

end Column

/-- A reference to a column as it is written. -/
def referenceText (table : Option String) (name : String) : String :=
  match table with
  | some t => t ++ "." ++ name
  | none => name

/-- The columns of a table or a result, in order. -/
structure Header where
  columns : List Column := []
  deriving DecidableEq, Repr, Inhabited

namespace Header

def width (h : Header) : Nat :=
  h.columns.length

/-- The header of a table with the given column names. -/
def ofNames (table : String) (names : List String) : Header :=
  ⟨names.mapIdx fun i name => { table, name, number := i + 1, fromTable := true }⟩

/-- The header of the table of one row; its only column has no name and is not shown by `*`. -/
def dual : Header :=
  ⟨[{}]⟩

/-- The columns of one header and then those of another. -/
def append (a b : Header) : Header :=
  ⟨a.columns ++ b.columns⟩

/-- Adds a column at the end. -/
def push (h : Header) (c : Column) : Header :=
  ⟨h.columns ++ [c]⟩

/-- Changes the column at an index. -/
def modify (h : Header) (i : Nat) (f : Column → Column) : Header :=
  ⟨h.columns.modify i f⟩

/-- The indices of the columns that pass a test. -/
def indicesWhere (h : Header) (p : Column → Bool) : List Nat :=
  (h.columns.zipIdx.filter fun (c, _) => p c).map Prod.snd

/-- The index of the column that a reference means, if any does; two must not. -/
def find? (h : Header) (table : Option String) (name : String) : Except QueryError (Option Nat) :=
  match h.indicesWhere fun c => c.isMeantBy table name with
  | [] => .ok none
  | [i] => .ok (some i)
  | _ => .error (.ambiguousField (referenceText table name))

/-- The index of the column that a reference means. -/
def find (h : Header) (table : Option String) (name : String) : Except QueryError Nat := do
  match ← h.find? table name with
  | some i => return i
  | none => throw (.noSuchField (referenceText table name))

/-- The index of the computed column of an expression. -/
def findComputed? (h : Header) (text : String) : Option Nat :=
  h.columns.findIdx? fun c => !c.fromTable && !c.name.isEmpty && c.name == text

/-- Whether any column does not come from a table. -/
def hasComputed (h : Header) : Bool :=
  h.columns.any fun c => !c.fromTable

/-- The columns for which `*` stands. -/
def tableColumns (h : Header) : List Nat :=
  h.indicesWhere fun c => c.fromTable && !c.hidden

/-- The columns for which `table.*` stands. -/
def columnsOf (h : Header) (table : String) : Except QueryError (List Nat) :=
  match h.indicesWhere fun c => c.fromTable && !c.joined && sameIgnoringCase c.table table with
  | [] => .error (.noSuchField (table ++ ".*"))
  | is => .ok is

/-- The names under which the columns are shown. -/
def labels (h : Header) : List String :=
  h.columns.map Column.label

/-- The header of a result that is read as a table, under the given names or else its labels. -/
def asTable (h : Header) (table : String) (names : List String) : Header :=
  ofNames table (h.labels.mapIdx fun i label => names.getD i label)

/-- The columns with the given indices, in their order. -/
def project (h : Header) (indices : List Nat) : Header :=
  ⟨indices.filterMap fun i => h.columns[i]?⟩

end Header

end TableQuery
