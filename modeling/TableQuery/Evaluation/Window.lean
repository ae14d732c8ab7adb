import TableQuery.Evaluation.Call
import TableQuery.Evaluation.Stage
import TableQuery.Function.Window
import TableQuery.Table.Arrangement

/-!
# Window calls

A window call is computed once for all records of a view: they are sorted by the keys of the call
and split into partitions, and each member of a partition gets one value. The values are kept in a
computed column, and the records stay in the order of the window.
-/

namespace TableQuery

open Calendar

/-- A window call with the meanings of its parts. -/
structure WindowCall where
  expr : Expr
  name : String
  distinct : Bool
  args : List Operand
  partition : List Operand
  order : List SortOperand

/-- The members of a partition in the order of the window, and for each whether it is a peer of the
member before. -/
structure Partition where
  members : List Binding
  flags : List Bool

/-- How a window call computes the values of a partition. -/
abbrev WindowRoutine := Partition → Eval (List Value)

/-- The number of tiles, which must be positive. -/
def evalTileCount (name : String) (o : Operand) (env : Env) : Eval Nat := do
  match (← o.eval env.detached).toInteger? with
  | none => throw (.badArgument name 0 .integer)
  | some tiles =>
    if tiles < 1 then throw (.badArgument name 0 .positive) else return tiles.toInt.toNat

/-- How far away the neighbour is whose value is taken: one place unless given. -/
def evalDistance (name : String) (env : Env) : Option Operand → Eval Int64
  | none => return 1
  | some o => do
    match (← o.eval env.detached).toInteger? with
    | some offset => return offset
    | none => throw (.badArgument name 1 .integer)

/-- The value of an operand without any record; NULL if there is no operand. -/
def evalDetached (env : Env) : Option Operand → Eval Value
  | none => return .null
  | some o => o.eval env.detached

/-- The values of a window function that takes those of its first argument. -/
def evalNeighbours (name : String) (args : List Operand) (env : Env) (p : Partition)
    (values : Int64 → Value → List Value → List Value) : Eval (List Value) := do
  let offset ← evalDistance name env args[1]?
  let default ← evalDetached env args[2]?
  match args with
  | [] => return []
  | o :: _ => return values offset default (← o.evalEach env p.members)

/-- The values of a window function. -/
def WindowFunction.routine (f : WindowFunction) (name : String) (args : List Operand) (env : Env) :
    WindowRoutine := fun p => do
  let count := p.members.length
  match f, args with
  | rowNumber, _ => return (List.range count).map fun i => .ofNat (i + 1)
  | rank, _ => return (ranks p.flags).map .ofNat
  | denseRank, _ => return (denseRanks p.flags).map .ofNat
  | cumeDist, _ => return (cumulativeShares p.flags).map .float
  | percentRank, _ => return (rankShares p.flags).map .float
  | ntile, o :: _ => return (tileNumbers (← evalTileCount name o env) count).map .ofNat
  | firstValue, o :: _ =>
    let vs ← o.evalEach env p.members
    return vs.map fun _ => vs.headD .null
  | lastValue, o :: _ =>
    let vs ← o.evalEach env p.members
    return vs.map fun _ => vs.getLastD .null
  | lag, _ => evalNeighbours name args env p lagValues
  | lead, _ => evalNeighbours name args env p leadValues
  | _, [] => return []

/-- How an aggregate reduces the values of a frame. -/
abbrev FrameReducer := List Value → Except QueryError Value

/-- The aggregate that a window call names. Its further arguments are evaluated without any record.
-/
def frameReducer (name : String) (args : List Operand) (env : Env) : Eval FrameReducer := do
  match Aggregate.ofName? name with
  | some f =>
    checkArity name (.exactly 1) args.length
    return fun vs => .ok (f.eval env.clock vs)
  | none =>
    let upper := Text.upper name
    if upper == "LISTAGG" || upper == "GROUP_CONCAT" then
      checkArity name (.between 1 2) args.length
      let separator ←
        match args[1]? with
        | some o => pure ((← o.eval env.detached).toText?.getD "")
        | none => pure (defaultSeparator upper)
      return fun vs => .ok (joinTexts separator vs)
    else
      match ← userFunction? name with
      | some f@⟨_, _, .aggregate body⟩ =>
        checkArity name (.atLeast 1) args.length
        f.checkArguments (args.length - 1)
        let extra ← evalAll args.tail env.detached
        return fun vs => body vs extra
      | _ => throw (.noSuchFunction name)

/-- The values over which an aggregate of a window runs: those of its first argument, or as many as
there are members for `COUNT(*)`. -/
def evalFrameValues (name : String) (args : List Operand) (env : Env) (p : Partition) :
    Eval (List Value) := do
  match args with
  | [] => return []
  | o :: _ =>
    match o.expr with
    | .allColumns =>
      if Text.sameIgnoringCase name "COUNT" then return p.members.map fun _ => .integer 1
      else throw (.badWildcard name)
    | .tableColumns _ => throw (.badWildcard name)
    | _ => o.evalEach env p.members

/-- The values of an aggregate over a partition. In a sorted window each member sees the members up
to its last peer, else it sees all of them. -/
def aggregateRoutine (call : WindowCall) (env : Env) (reduce : FrameReducer) : WindowRoutine :=
  fun p => do
    let vs ← evalFrameValues call.name call.args env p
    let frame (stop : Nat) : Except QueryError Value :=
      reduce (distinctIf env.clock call.distinct (vs.take stop))
    if call.order.isEmpty then
      let v ← frame vs.length
      return vs.map fun _ => v
    else
      (List.range vs.length).mapM fun i => frame (lastPeer p.flags i + 1)

/-- What a window call computes: a window function, or an aggregate over frames. -/
inductive WindowKind where
  | function (f : WindowFunction)
  | aggregate (reduce : FrameReducer)

/-- What a window call computes, once its arguments are counted. -/
def WindowCall.kind (call : WindowCall) (env : Env) : Eval WindowKind := do
  match WindowFunction.ofName? call.name with
  | some f =>
    checkArity call.name f.arity call.args.length
    return .function f
  | none => return .aggregate (← frameReducer call.name call.args env)

/-- How a window call computes its values. -/
def WindowCall.routine (call : WindowCall) (env : Env) : WindowKind → WindowRoutine
  | .function f => f.routine call.name call.args env
  | .aggregate reduce => aggregateRoutine call env reduce

/-- The sort keys of every record; each key is evaluated for all records before the next one. -/
def WindowCall.sortKeys (call : WindowCall) (env : Env) (v : View) :
    Eval (List (List SortKey)) := do
  let columns ← call.order.mapM fun o => o.evalEach env v.bindings
  return (List.range v.records.length).map fun i =>
    SortKey.ofValues env.clock (columns.map fun c => c.getD i .null)

/-- Gives each index its value; indices without one have NULL. -/
def scatter (count : Nat) (pairs : List (Nat × Value)) : List Value :=
  (List.range count).map fun i => (pairs.lookup i).getD .null

/-- Computes a window call over the records of a view, which come with their sort keys. -/
def WindowCall.values (call : WindowCall) (env : Env) (routine : WindowRoutine) (v : View)
    (keys : List (List SortKey)) : Eval (List Value) := do
  let bindings := v.bindings
  let partitionKeys ← bindings.mapM fun b => evalAll call.partition (env.bind b)
  let pairs ← (groupIndices env.clock partitionKeys).mapM fun indices => do
    let members := indices.filterMap fun i => bindings[i]?
    let flags := peers (indices.map fun i => keys.getD i [])
    return indices.zip (← routine ⟨members, flags⟩)
  return scatter v.records.length pairs.flatten

/-- Adds the column of a window call to the view. -/
def WindowCall.run (call : WindowCall) (env : Env) : Stage Unit := do
  let kind ← call.kind env
  let v ← Stage.view
  let keys ← call.sortKeys env v
  let sorted :=
    if call.order.isEmpty then keys.zip v.records
    else sortByKeys (keyOrders call.order) (keys.zip v.records)
  let v := { v with records := sorted.map Prod.snd }
  Stage.modifyView fun _ => v
  let values ← call.values env (call.routine env kind) v (sorted.map Prod.fst)
  Stage.modifyView fun v => v.pushColumn (.computed call.expr.text) values

/-- Computes the window calls that the view does not hold yet. -/
def runWindows (calls : List WindowCall) (env : Env) : Stage Unit :=
  calls.forM fun call => do
    if ((← Stage.view).header.findComputed? call.expr.text).isNone then call.run env

end TableQuery
