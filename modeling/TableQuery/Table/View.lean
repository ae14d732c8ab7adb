import TableQuery.Table.Header
import TableQuery.Table.Record
import TableQuery.Table.Arrangement
import TableQuery.Value.RowKey
import TableQuery.Value.SortKey
import TableQuery.Language.Query

/-!
# Views

The working table of a query. Besides its columns and rows it holds what later stages need: whether
its rows are groups, which columns are selected, and the sort keys of its rows.
-/

namespace TableQuery

open Calendar

/-- The working table of a query. -/
structure View where
  header : Header
  records : List Record
  /-- Whether records stand for groups of rows. -/
  grouped : Bool := false
  /-- The columns of the select list; the others are dropped at the end. -/
  selected : Option (List Nat) := none
  /-- The sort keys of the records in their order, once they are sorted. -/
  sortKeys : Option (List (List SortKey)) := none
  /-- How many records the offset asked to drop. -/
  dropped : Nat := 0
  deriving Inhabited

namespace View

/-- The view of a query without a source: one row whose only column is not shown. -/
def dual : View :=
  { header := .dual, records := [.nulls 1] }

/-- A view from plain rows. -/
def ofRows (header : Header) (rows : List (List Value)) : View :=
  { header, records := rows.map Record.ofValues }

def labels (v : View) : List String :=
  v.header.labels

/-- The values of all records. -/
def rows (v : View) : List (List Value) :=
  v.records.map Record.values

/-- The view read as a table of another name. -/
def asTable (v : View) (table : String) (names : List String) : View :=
  { header := v.header.asTable table names, records := v.records }

/-- Adds a column and its value in each record. -/
def pushColumn (v : View) (c : Column) (values : List Value) : View :=
  { v with
    header := v.header.push c
    records := v.records.zipWith (fun r x => r.push (Cell.ofValue x)) values }

/-- The view without the columns beyond the first ones. -/
def takeColumns (v : View) (width : Nat) : View :=
  { v with
    header := ⟨v.header.columns.take width⟩
    records := v.records.map fun r => r.take width }

/-- The view as a single group, which is empty if the view is. -/
def groupAll (v : View) : View :=
  { v with records := [Record.group v.header.width v.records], grouped := true }

/-- Every record of the one view with every record of the other. -/
def cross (a b : View) : View :=
  { header := a.header.append b.header
    records := a.records.flatMap fun r => b.records.map r.append }

/-- Keeps the selected columns and one value in each cell, and forgets what only stages need. -/
def fix (v : View) : View :=
  match v.selected with
  | some indices =>
    { header := v.header.project indices
      records := v.records.map fun r => (r.project indices).collapse }
  | none => { header := v.header, records := v.records.map Record.collapse }

/-! ## Rows as keys -/

/-- The canonical text of a record. -/
def keyOf (clock : Clock) (r : Record) : String :=
  rowKey clock r.values

/-- The first records of each key, given the keys that were seen before. -/
def uniqueFrom (clock : Clock) (seen : List String) : List Record → List Record
  | [] => []
  | r :: rs =>
    let key := keyOf clock r
    if seen.contains key then uniqueFrom clock seen rs
    else r :: uniqueFrom clock (key :: seen) rs

/-- The records without later ones of the same key. -/
def unique (clock : Clock) (rs : List Record) : List Record :=
  uniqueFrom clock [] rs

/-- Projects to the selected columns and drops duplicates. -/
def distinct (clock : Clock) (v : View) : View :=
  let indices := v.selected.getD (List.range v.header.width)
  { v with
    header := v.header.project indices
    records := unique clock (v.records.map fun r => r.project indices)
    selected := some (List.range indices.length) }

/-- The records whose keys are not among the others', each of which cancels one record. -/
def subtractAll (clock : Clock) (others : List String) : List Record → List Record
  | [] => []
  | r :: rs =>
    let key := keyOf clock r
    if others.contains key then subtractAll clock (others.erase key) rs
    else r :: subtractAll clock others rs

/-- The records whose keys are among the others', each of which accepts one record. -/
def commonAll (clock : Clock) (others : List String) : List Record → List Record
  | [] => []
  | r :: rs =>
    let key := keyOf clock r
    if others.contains key then r :: commonAll clock (others.erase key) rs
    else commonAll clock others rs

/-- The records of a set operation: with `all` duplicates count, else each key occurs once. -/
def combinedRecords (clock : Clock) (op : SetOp) (all : Bool) (a b : List Record) : List Record :=
  let others := b.map (keyOf clock)
  match op, all with
  | .union, true => a ++ b
  | .union, false => unique clock (a ++ b)
  | .except, true => subtractAll clock others a
  | .except, false => unique clock (a.filter fun r => !others.contains (keyOf clock r))
  | .intersect, true => commonAll clock others a
  | .intersect, false => unique clock (a.filter fun r => others.contains (keyOf clock r))

/-- A set operation with a view that has as many columns; `expression` names the other view. -/
def combine (clock : Clock) (op : SetOp) (all : Bool) (expression : String) (a b : View) :
    Except QueryError View :=
  if a.header.width != b.header.width then .error (.combinedWidth expression a.header.width)
  else .ok { a with records := combinedRecords clock op all a.records b.records }

/-! ## Slices -/

/-- Drops the first records. -/
def drop (v : View) (n : Nat) : View :=
  { v with
    records := v.records.drop n
    sortKeys := v.sortKeys.map fun keys => keys.drop (min n v.records.length)
    dropped := n }

/-- Extends a count of records as long as the next one ties with the last. -/
def extendByTies (keys : List (List SortKey)) (count : Nat) : Nat :=
  match count with
  | 0 => 0
  | before + 1 =>
    match keys.drop before with
    | [] => count
    | last :: rest => count + tiesFrom last rest
where
  /-- Counts the keys in front that tie one after the other. -/
  tiesFrom (last : List SortKey) : List (List SortKey) → Nat
    | [] => 0
    | key :: rest => if SortKey.tupleTies key last then 1 + tiesFrom key rest else 0

/-- Keeps the first records, with `ties` also those that tie with the last of them. -/
def take (v : View) (count : Nat) (ties : Bool) : View :=
  let count := if ties then v.sortKeys.elim count fun keys => extendByTies keys count else count
  if count < v.records.length then
    { v with
      records := v.records.take count
      sortKeys := v.sortKeys.map fun keys => keys.take count }
  else
    v

/-- The number of records that a percentage of all of them means, those dropped before included. -/
def percentCount (v : View) (percentage : Float) : Nat :=
  let p := if percentage < 0 then 0 else if 100 < percentage then 100 else percentage
  (Float.ofNat (v.records.length + v.dropped) * p / 100).ceil.toUInt64.toNat

end View

end TableQuery
