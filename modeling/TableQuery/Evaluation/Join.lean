import TableQuery.Evaluation.Operator

/-!
# Joins

A join matches each record of its driving side with every record of the other side. The driving
records may be split into chunks, whose results are put together in order, so that the split does
not show.
-/

namespace TableQuery

/-! ## Chunks -/

/-- A chunk is worth its while from this many driving records on. -/
def recordsPerChunk : Nat :=
  40

/-- Into how many chunks driving records are split. A condition that assigns variables must see them
in order, so they are not split then. -/
def chunkCount (cpu count : Nat) (assigns : Bool) : Nat :=
  if assigns then 1 else max 1 (min cpu (count / recordsPerChunk))

/-- The sizes of chunks: all are as large as the first one, but the last may be smaller. -/
def chunkSize (count chunks : Nat) : Nat :=
  max 1 ((count + chunks - 1) / chunks)

/-- The first and the next-after-last index of each chunk. -/
def chunkRanges (count chunks : Nat) : List (Nat × Nat) :=
  let size := chunkSize count chunks
  (List.range ((count + size - 1) / size)).map fun i => (i * size, min ((i + 1) * size) count)

/-! ## Matching -/

/-- How driving records are matched. -/
structure Matcher where
  /-- Puts a driving record and another one side by side. -/
  pair : Record → Record → Record
  /-- Whether a pair is kept. -/
  test : Record → Eval Bool
  others : List Record
  /-- What is put beside a driving record that nothing matches, if it is kept. -/
  padding : Option Record

/-- What matching gives: the records, and for each of the others whether anything matched it. -/
structure MatchResult where
  records : List Record
  matched : List Bool

namespace MatchResult

/-- Marks what either list marks; what only the first list covers stays as it is. -/
def orFlags : List Bool → List Bool → List Bool
  | a :: as, b :: bs => (a || b) :: orFlags as bs
  | as, _ => as

/-- The results of several parts together. -/
def concat (others : Nat) (results : List MatchResult) : MatchResult :=
  let none := List.replicate others false
  { records := results.flatMap MatchResult.records
    matched := results.foldl (fun flags r => orFlags flags r.matched) none }

end MatchResult

namespace Matcher

/-- The records for one driving record, given which of the others match it. -/
def recordsFor (m : Matcher) (driving : Record) (flags : List Bool) : List Record :=
  let found := ((m.others.zip flags).filter Prod.snd).map fun (other, _) => m.pair driving other
  if found.isEmpty then (m.padding.map (m.pair driving)).toList else found

/-- Matches one driving record. -/
def matchRecord (m : Matcher) (driving : Record) : Eval MatchResult := do
  let flags ← m.others.mapM fun other => m.test (m.pair driving other)
  return ⟨m.recordsFor driving flags, flags⟩

/-- Matches a chunk of driving records. -/
def matchChunk (m : Matcher) (driving : List Record) : Eval MatchResult := do
  return .concat m.others.length (← driving.mapM m.matchRecord)

/-- Matches all driving records chunk by chunk. The first chunk that fails decides the error. -/
def matchChunks (m : Matcher) (driving : List Record) (ranges : List (Nat × Nat)) :
    Eval MatchResult := do
  let results ← ranges.mapM fun (start, stop) =>
    m.matchChunk ((driving.drop start).take (stop - start))
  return .concat m.others.length results

end Matcher

/-! ## Conditions -/

/-- A condition on pairs of records, and whether it assigns variables. -/
structure JoinCondition where
  eval : Env → Eval Value
  assigns : Bool := false

/-- A condition that is written as an expression. -/
def JoinCondition.ofOperand (o : Operand) : JoinCondition :=
  ⟨o.eval, o.expr.hasAssignment⟩

/-- Whether a pair of records satisfies a condition; without one all do. -/
def testPair (condition : Option JoinCondition) (env : Env) (header : Header) (record : Record) :
    Eval Bool := do
  match condition with
  | none => return true
  | some c => return (← c.eval (env.bind { header, record })).toTruth.holds

/-- The qualified name of a column. -/
def Column.reference (c : Column) : Option String × String :=
  (some c.table, c.name)

/-- The qualified names of the columns that a join pairs. -/
def pairedReferences (left right : Header) (pairs : List (Nat × Nat)) :
    List ((Option String × String) × (Option String × String)) :=
  pairs.map fun (l, r) =>
    ((left.columns[l]?.getD {}).reference, (right.columns[r]?.getD {}).reference)

/-- The equality of two columns. -/
def columnsEqual (a b : Option String × String) (env : Env) : Eval Value := do
  let x ← env.column a.1 a.2
  let y ← env.column b.1 b.2
  return .truth (x.test env.clock .equal y)

/-- The equality of all columns that a join pairs, if it pairs any. -/
def equalityCondition (left right : Header) (pairs : List (Nat × Nat)) : Option JoinCondition :=
  match pairedReferences left right pairs with
  | [] => none
  | (a, b) :: rest =>
    some ⟨fun env => rest.foldl (fun before (a, b) => evalLogic .and before (columnsEqual a b env))
      (columnsEqual a b env), false⟩

/-! ## Join kinds -/

/-- The records that drive a join: the right ones in a right join, else the left ones. -/
def drivingRecords (kind : JoinKind) (left right : View) : List Record :=
  match kind with
  | .right => right.records
  | _ => left.records

/-- How the records of two views are matched. What nothing matches is kept on the driving side of an
outer join. -/
def matcherOf (kind : JoinKind) (left right : View) (test : Record → Eval Bool) : Matcher :=
  match kind with
  | .cross | .inner =>
    { pair := Record.append, test, others := right.records, padding := none }
  | .left | .full =>
    { pair := Record.append, test, others := right.records
      padding := some (.nulls right.header.width) }
  | .right =>
    { pair := fun driving other => other.append driving, test, others := left.records
      padding := some (.nulls left.header.width) }

/-- The records of a join. If both sides are preserved, the right records that nothing matched come
last. -/
def joinedRecords (kind : JoinKind) (left right : View) (result : MatchResult) : List Record :=
  match kind with
  | .full =>
    let unmatched := (right.records.zip result.matched).filter fun (_, matched) => !matched
    result.records ++ unmatched.map fun (r, _) => (Record.nulls left.header.width).append r
  | _ => result.records

/-- The view that a join makes of what matching gave. -/
def joinedView (kind : JoinKind) (left right : View) (result : MatchResult) : View :=
  { header := left.header.append right.header, records := joinedRecords kind left right result }

/-- Joins two views, whose driving records are split into the given number of chunks. -/
def joinInChunks (kind : JoinKind) (left right : View) (condition : Option JoinCondition)
    (env : Env) (chunks : Nat) : Eval View := do
  let m := matcherOf kind left right (testPair condition env (left.header.append right.header))
  let driving := drivingRecords kind left right
  return joinedView kind left right (← m.matchChunks driving (chunkRanges driving.length chunks))

/-- The pairs that satisfy a condition, and the records in none of them that the kind of the join
preserves. -/
def matchJoin (kind : JoinKind) (left right : View) (condition : Option JoinCondition) (env : Env) :
    Eval View :=
  let count := (drivingRecords kind left right).length
  let chunks := chunkCount env.settings.cpu count (condition.any JoinCondition.assigns)
  joinInChunks kind left right condition env chunks

/-! ## Columns in common -/

/-- The columns that both sides have by name, in the order of the left side. -/
def naturalPairs (left right : Header) : List (Nat × Nat) :=
  left.tableColumns.filterMap fun l =>
    let name := (left.columns[l]?.getD {}).name
    let partner := right.tableColumns.find? fun r =>
      Text.sameIgnoringCase (right.columns[r]?.getD {}).name name
    partner.map fun r => (l, r)

/-- The columns of the given names on both sides. -/
def usingPairs (left right : Header) (names : List String) :
    Except QueryError (List (Nat × Nat)) :=
  names.mapM fun name => do
    let l ← left.find none name
    return (l, ← right.find none name)

/-- The first value that is not NULL. -/
def firstValue (a b : Value) : Value :=
  if a.isNull then b else a

/-- Puts one column in front for each pair and hides the paired columns. It takes the value of the
left column unless that is NULL, or of the right one first. -/
def View.mergePairs (v : View) (pairs : List (Nat × Nat)) (rightFirst : Bool) : View :=
  let front := pairs.map fun (l, _) =>
    { name := (v.header.columns[l]?.getD {}).name, fromTable := true, joined := true : Column }
  let hidden := pairs.flatMap fun (l, r) => [l, r]
  let columns := v.header.columns.mapIdx fun i c =>
    if hidden.contains i then { c with hidden := true } else c
  let merged (r : Record) : Record :=
    .ofValues (pairs.map fun (a, b) =>
      if rightFirst then firstValue (r.value b) (r.value a)
      else firstValue (r.value a) (r.value b))
  { v with
    header := ⟨front ++ columns⟩
    records := v.records.map fun r => (merged r).append r }

/-- The condition of a join with its meaning. -/
inductive JoinOn where
  | always
  | natural
  | condition (c : JoinCondition)
  | columns (names : List String)

/-- The pairs of columns that a join compares by name, if it does. -/
def JoinOn.pairs? (on : JoinOn) (left right : Header) :
    Except QueryError (Option (List (Nat × Nat))) :=
  match on with
  | natural => .ok (some (naturalPairs left right))
  | columns names => (usingPairs left right names).map some
  | _ => .ok none

/-- The condition by which a join matches records, given the columns that it pairs. -/
def JoinOn.condition? (on : JoinOn) (left right : Header) (pairs? : Option (List (Nat × Nat))) :
    Option JoinCondition :=
  match pairs?, on with
  | some pairs, _ => equalityCondition left right pairs
  | none, condition c => some c
  | none, _ => none

/-- Joins two views. -/
def joinViews (kind : JoinKind) (on : JoinOn) (left right : View) (env : Env) : Eval View := do
  let pairs? ← on.pairs? left.header right.header
  let condition := on.condition? left.header right.header pairs?
  let joined ←
    if kind == .cross && condition.isNone then pure (left.cross right)
    else matchJoin kind left right condition env
  match pairs? with
  | some pairs =>
    let shifted := pairs.map fun (l, r) => (l, r + left.header.width)
    return joined.mergePairs shifted (kind == .right)
  | none => return joined

end TableQuery
