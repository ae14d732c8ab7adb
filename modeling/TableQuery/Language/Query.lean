import TableQuery.Text.Case
import TableQuery.Value.Arithmetic
import TableQuery.Value.SortKey

/-!
# Queries

The syntax of expressions and queries. They contain each other: an expression may hold a subquery,
and a query is made of expressions.
-/

namespace TableQuery

/-- A literal value in a query text. -/
inductive Literal where
  | integer (i : Int64)
  | float (f : Float)
  | text (s : String)
  | truth (t : Truth)
  | null

/-- The value that a literal denotes. -/
def Literal.value : Literal → Value
  | integer i => .integer i
  | float f => .float f
  | text s => .text s
  | truth t => .truth t
  | null => .null

inductive LogicOp where
  | and
  | or
  deriving DecidableEq, Repr

def LogicOp.text : LogicOp → String
  | and => "AND"
  | or => "OR"

inductive SetOp where
  | union
  | except
  | intersect
  deriving DecidableEq, Repr

def SetOp.text : SetOp → String
  | union => "UNION"
  | except => "EXCEPT"
  | intersect => "INTERSECT"

inductive JoinKind where
  | cross
  | inner
  | left
  | right
  | full
  deriving DecidableEq, Repr

def JoinKind.text : JoinKind → String
  | cross => "CROSS"
  | inner => "INNER"
  | left => "LEFT"
  | right => "RIGHT"
  | full => "FULL"

mutual

/-- An expression. -/
inductive Expr where
  | literal (l : Literal)
  | column (table : Option String) (name : String)
  /-- The expression `*`. -/
  | allColumns
  /-- The expression `table.*`. -/
  | tableColumns (table : String)
  | parens (e : Expr)
  | arith (op : ArithOp) (left right : Expr)
  | signed (sign : Sign) (e : Expr)
  /-- All operands of a chain of `||`. -/
  | concat (items : List Expr)
  | compare (op : CompareOp) (left right : Expr)
  | is (negated : Bool) (e value : Expr)
  | between (negated : Bool) (e low high : Expr)
  | like (negated : Bool) (e pattern : Expr)
  /-- The values are a value list or a subquery, as for `any` and `all`. -/
  | isIn (negated : Bool) (e values : Expr)
  | any (op : CompareOp) (e values : Expr)
  | all (op : CompareOp) (e values : Expr)
  | existsIn (q : Query)
  | subquery (q : Query)
  /-- Two or more expressions in parentheses. -/
  | rowValue (items : List Expr)
  /-- The list after `IN`, `ANY` or `ALL`. -/
  | valueList (items : List Expr)
  | call (name : String) (args : List Expr)
  | aggregate (name : String) (distinct : Bool) (args : List Expr)
  /-- An aggregate that joins texts; its second argument is the separator. -/
  | listAggregate (name : String) (distinct : Bool) (args : List Expr) (order : List OrderItem)
  /-- A call with an `OVER` clause. -/
  | window (name : String) (distinct : Bool) (args partition : List Expr) (order : List OrderItem)
  | case (operand : Option Expr) (branches : List Branch) (otherwise : Option Expr)
  | logic (op : LogicOp) (left right : Expr)
  | not (e : Expr)
  | variable (name : String)
  /-- An assignment to a variable, which has the assigned value. -/
  | assign (name : String) (value : Expr)

/-- A sort key. -/
inductive OrderItem where
  | mk (key : Expr) (direction : Option Direction) (nulls : Option NullPlacement)

/-- A condition of a `CASE` expression and its result. -/
inductive Branch where
  | mk (condition result : Expr)

/-- A query. An empty list of inline tables or sort keys stands for no clause. -/
inductive Query where
  | mk (recursive : Bool) (tables : List InlineDef) (body : Body) (order : List OrderItem)
    (offset : Option Expr) (limit : Limit)

/-- An inline table of a `WITH` clause. Without columns it has those of its query. -/
inductive InlineDef where
  | mk (name : String) (columns : List String) (query : Query)

/-- How many rows of a result are kept. -/
inductive Limit where
  | all
  | rows (count : Expr) (percent ties : Bool)

/-- A query without its sort keys and limits. -/
inductive Body where
  | select (distinct : Bool) (fields : List Field) (sources : List Source)
    (condition : Option Expr) (groups : List Expr) (having : Option Expr)
  | combine (op : SetOp) (all : Bool) (left right : Body)
  | nested (q : Query)

/-- A field of a select list. -/
inductive Field where
  | mk (e : Expr) (aliasName : Option String)

/-- Where rows come from. -/
inductive Source where
  | named (name : String) (aliasName : Option String)
  /-- The table of one row without columns. -/
  | dual (aliasName : Option String)
  | stdin (aliasName : Option String)
  | subquery (q : Query) (aliasName : Option String) (columns : List String)
  | values (rows : List (List Expr)) (aliasName : Option String) (columns : List String)
  | join (kind : JoinKind) (left right : Source) (matching : JoinMatch)

/-- Which pairs of rows a join keeps. -/
inductive JoinMatch where
  | always
  | natural
  | on (e : Expr)
  | using (names : List String)

end

/-- An omitted direction is ascending. -/
def OrderItem.keyOrder : OrderItem → KeyOrder
  | mk _ direction nulls =>
    let d := direction.getD .asc
    ⟨d, nulls.getD d.nullPlacement⟩

def OrderItem.key : OrderItem → Expr
  | mk key _ _ => key

namespace Expr

/-- The expressions directly below an expression; subqueries are not entered. -/
def children : Expr → List Expr
  | literal _ | column _ _ | allColumns | tableColumns _ | existsIn _ | subquery _
  | .variable _ => []
  | parens e | not e | signed _ e | assign _ e => [e]
  | arith _ a b | compare _ a b | logic _ a b | is _ a b | like _ a b | isIn _ a b | any _ a b
  | all _ a b => [a, b]
  | between _ e low high => [e, low, high]
  | concat items | rowValue items | valueList items | call _ items | aggregate _ _ items => items
  | listAggregate _ _ args order => args ++ order.map OrderItem.key
  | window _ _ args partition order => args ++ partition ++ order.map OrderItem.key
  | case operand branches otherwise =>
    operand.toList ++ (branches.flatMap fun | .mk condition result => [condition, result])
      ++ otherwise.toList

/-- Whether the expression is an aggregate call. -/
def isAggregate : Expr → Bool
  | aggregate .. | listAggregate .. => true
  | _ => false

/-- Whether the expression is an assignment. -/
def isAssignment : Expr → Bool
  | assign .. => true
  | _ => false

/-- Whether the expression is a window call. -/
def isWindow : Expr → Bool
  | window .. => true
  | _ => false

end Expr

mutual

/-- An expression and all expressions below it, in the order in which they are written; subqueries
are not entered. -/
def Expr.nodes (e : Expr) : List Expr :=
  e :: match e with
    | .literal _ | .column _ _ | .allColumns | .tableColumns _ | .existsIn _ | .subquery _
    | .variable _ => []
    | .parens e | .not e | .signed _ e | .assign _ e => e.nodes
    | .arith _ a b | .compare _ a b | .logic _ a b | .is _ a b | .like _ a b | .isIn _ a b
    | .any _ a b | .all _ a b => a.nodes ++ b.nodes
    | .between _ e low high => e.nodes ++ low.nodes ++ high.nodes
    | .concat items | .rowValue items | .valueList items | .call _ items
    | .aggregate _ _ items => nodesOfList items
    | .listAggregate _ _ args order => nodesOfList args ++ nodesOfOrder order
    | .window _ _ args partition order =>
      nodesOfList args ++ nodesOfList partition ++ nodesOfOrder order
    | .case operand branches otherwise =>
      nodesOfOption operand ++ nodesOfBranches branches ++ nodesOfOption otherwise

def nodesOfList : List Expr → List Expr
  | [] => []
  | e :: es => e.nodes ++ nodesOfList es

def nodesOfOption : Option Expr → List Expr
  | none => []
  | some e => e.nodes

def nodesOfOrder : List OrderItem → List Expr
  | [] => []
  | .mk key _ _ :: items => key.nodes ++ nodesOfOrder items

def nodesOfBranches : List Branch → List Expr
  | [] => []
  | .mk condition result :: branches =>
    condition.nodes ++ result.nodes ++ nodesOfBranches branches

end

namespace Expr

/-- Whether an aggregate is called outside subqueries. -/
def hasAggregate (e : Expr) : Bool :=
  e.nodes.any isAggregate

/-- Whether a variable is assigned outside subqueries. -/
def hasAssignment (e : Expr) : Bool :=
  e.nodes.any isAssignment

/-- The window calls outside subqueries, outermost first. -/
def windows (e : Expr) : List Expr :=
  e.nodes.filter isWindow

end Expr

/-! ## Tables that a query reads

Subqueries count as sources, but not within expressions. -/

mutual

/-- Whether a source of the body names the table. -/
def Body.reads (table : String) : Body → Bool
  | .select _ _ sources _ _ _ => sourcesRead table sources
  | .combine _ _ left right => left.reads table || right.reads table
  | .nested q => q.reads table

def Query.reads (table : String) : Query → Bool
  | .mk _ _ body _ _ _ => body.reads table

def sourcesRead (table : String) : List Source → Bool
  | [] => false
  | s :: sources => s.reads table || sourcesRead table sources

def Source.reads (table : String) : Source → Bool
  | .named name _ => Text.sameIgnoringCase name table
  | .subquery q _ _ => q.reads table
  | .join _ left right _ => left.reads table || right.reads table
  | .dual _ | .stdin _ | .values _ _ _ => false

end

end TableQuery
