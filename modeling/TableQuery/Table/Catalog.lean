import TableQuery.Text.Case
import TableQuery.Table.View

/-!
# Catalogs

Declarations are kept by name, in any case: names with the same upper case are the same. A catalog
holds the tables that every query of an engine may read, and the one that stands for standard input.
-/

namespace TableQuery

/-! ## Declarations by name -/

/-- Values by name. Each entry is kept under the upper case of its name. -/
structure NameMap (α : Type) where
  entries : List (String × α) := []
  deriving Inhabited

namespace NameMap

variable {α : Type}

/-- The value of a name. -/
def get? (m : NameMap α) (name : String) : Option α :=
  m.entries.lookup (Text.upper name)

def contains (m : NameMap α) (name : String) : Bool :=
  (m.get? name).isSome

/-- The map without a name. -/
def erase (m : NameMap α) (name : String) : NameMap α :=
  let key := Text.upper name
  ⟨m.entries.filter fun (k, _) => k != key⟩

/-- Sets the value of a name. -/
def insert (m : NameMap α) (name : String) (value : α) : NameMap α :=
  ⟨(Text.upper name, value) :: (m.erase name).entries⟩

/-- The names in upper case, in order. -/
def names (m : NameMap α) : List String :=
  (m.entries.map Prod.fst).mergeSort fun a b => !(b < a)

end NameMap

/-! ## Tables -/

/-- A registered table. -/
structure StoredTable where
  columns : List String
  rows : List (List Value)

namespace StoredTable

/-- A table whose rows are all as wide as its header. -/
def ofRows (name : String) (columns : List String) (rows : List (List Value)) :
    Except QueryError StoredTable :=
  match rows.zipIdx.find? fun (row, _) => row.length != columns.length with
  | some (row, i) => .error (.raggedRow name (i + 1) row.length columns.length)
  | none => .ok ⟨columns, rows⟩

/-- The table as a view, referred to by the given name. -/
def view (t : StoredTable) (name : String) : View :=
  .ofRows (.ofNames name t.columns) t.rows

end StoredTable

/-- The tables of an engine. -/
structure Catalog where
  tables : NameMap StoredTable := {}
  stdin : Option StoredTable := none

namespace Catalog

/-- Adds or replaces a table. -/
def register (c : Catalog) (name : String) (columns : List String) (rows : List (List Value)) :
    Except QueryError Catalog := do
  let table ← StoredTable.ofRows name columns rows
  return { c with tables := c.tables.insert name table }

/-- Sets the table that stands for standard input. -/
def setStdin (c : Catalog) (columns : List String) (rows : List (List Value)) :
    Except QueryError Catalog := do
  let table ← StoredTable.ofRows "STDIN" columns rows
  return { c with stdin := some table }

/-- A registered table as a view, referred to as the query does. -/
def load (c : Catalog) (name : String) : Except QueryError View :=
  match c.tables.get? name with
  | some table => .ok (table.view name)
  | none => .error (.noSuchTable name)

/-- The table that stands for standard input. -/
def loadStdin (c : Catalog) : Except QueryError View :=
  match c.stdin with
  | some table => .ok (table.view "STDIN")
  | none => .error (.noSuchTable "STDIN")

end Catalog

end TableQuery
