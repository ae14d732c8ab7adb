import TableQuery.Value.Basic

/-!
# Records

The rows of tables and results. While a result is grouped, a record stands for a group of rows, and
each of its cells holds one value for each row of the group.
-/

namespace TableQuery

/-- One value, or one for each member of a group. -/
structure Cell where
  values : List Value
  deriving Inhabited

namespace Cell

def ofValue (v : Value) : Cell :=
  ⟨[v]⟩

/-- The value that represents the cell: its first one, NULL if it has none. -/
def value (c : Cell) : Value :=
  c.values.headD .null

/-- The cell with the value that represents it alone. -/
def collapse (c : Cell) : Cell :=
  ofValue c.value

end Cell

/-- A row. -/
structure Record where
  cells : List Cell
  deriving Inhabited

namespace Record

def ofValues (vs : List Value) : Record :=
  ⟨vs.map Cell.ofValue⟩

/-- A row of NULLs. -/
def nulls (width : Nat) : Record :=
  ofValues (List.replicate width .null)

def width (r : Record) : Nat :=
  r.cells.length

/-- The value of a column, NULL beyond the last one. -/
def value (r : Record) (i : Nat) : Value :=
  (r.cells[i]?.map Cell.value).getD .null

/-- The values of all columns. -/
def values (r : Record) : List Value :=
  r.cells.map Cell.value

/-- Adds a cell at the end. -/
def push (r : Record) (c : Cell) : Record :=
  ⟨r.cells ++ [c]⟩

/-- The cells of one record and then those of another. -/
def append (a b : Record) : Record :=
  ⟨a.cells ++ b.cells⟩

/-- The first cells. -/
def take (r : Record) (width : Nat) : Record :=
  ⟨r.cells.take width⟩

/-- The cells with the given indices, in their order. -/
def project (r : Record) (indices : List Nat) : Record :=
  ⟨indices.map fun i => r.cells[i]?.getD (Cell.ofValue .null)⟩

/-- The record with one value in each cell. -/
def collapse (r : Record) : Record :=
  ⟨r.cells.map Cell.collapse⟩

/-- How many members a group has. -/
def groupSize (r : Record) : Nat :=
  (r.cells.head?.map fun c => c.values.length).getD 0

/-- The members of a group, each as a record of its own. A cell with fewer values than the first one
holds NULL for the members after these. -/
def members (r : Record) : List Record :=
  (List.range r.groupSize).map fun j => ofValues (r.cells.map fun c => c.values.getD j .null)

/-- The group of the given rows, `width` columns wide. -/
def group (width : Nat) (rows : List Record) : Record :=
  ⟨(List.range width).map fun j => ⟨rows.map fun r => r.value j⟩⟩

end Record

end TableQuery
