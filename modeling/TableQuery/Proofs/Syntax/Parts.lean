import TableQuery.Language.Query

/-!
# The parts of an expression

All expressions inside an expression or a query, at any depth. Unlike `Expr.nodes` this enters
subqueries, so it covers everything that an evaluation can come across.
-/

namespace TableQuery

/-- What a query text is made of, as far as names are looked up or variables assigned there. -/
inductive Part where
  | expr (e : Expr)
  /-- A join by names of columns that another join by names may have merged. -/
  | rejoin

/-- Whether a join pairs columns by their names. -/
def JoinMatch.byName : JoinMatch → Bool
  | .natural | .using _ => true
  | .always | .on _ => false

/-- Whether a source has columns that a join by names merged. -/
def Source.merges : Source → Bool
  | .join _ left right m => m.byName || left.merges || right.merges
  | .named _ _ | .dual _ | .stdin _ | .subquery _ _ _ | .values _ _ _ => false

mutual

/-- An expression and all parts below it, in the order in which they are written. -/
def Expr.parts (e : Expr) : List Part :=
  .expr e :: match e with
    | .literal _ | .column _ _ | .allColumns | .tableColumns _ | .variable _ => []
    | .existsIn q | .subquery q => q.parts
    | .parens e | .not e | .signed _ e | .assign _ e => e.parts
    | .arith _ a b | .compare _ a b | .logic _ a b | .is _ a b | .like _ a b | .isIn _ a b
    | .any _ a b | .all _ a b => a.parts ++ b.parts
    | .between _ e low high => e.parts ++ low.parts ++ high.parts
    | .concat items | .rowValue items | .valueList items | .call _ items
    | .aggregate _ _ items => partsOfList items
    | .listAggregate _ _ args order => partsOfList args ++ partsOfOrder order
    | .window _ _ args partition order =>
      partsOfList args ++ partsOfList partition ++ partsOfOrder order
    | .case operand branches otherwise =>
      partsOfOption operand ++ partsOfBranches branches ++ partsOfOption otherwise

def partsOfList : List Expr → List Part
  | [] => []
  | e :: es => e.parts ++ partsOfList es

def partsOfOption : Option Expr → List Part
  | none => []
  | some e => e.parts

def partsOfOrder : List OrderItem → List Part
  | [] => []
  | .mk key _ _ :: items => key.parts ++ partsOfOrder items

def partsOfBranches : List Branch → List Part
  | [] => []
  | .mk condition result :: branches => condition.parts ++ result.parts ++ partsOfBranches branches

/-- All parts of a query. -/
def Query.parts : Query → List Part
  | .mk _ tables body order offset limit =>
    partsOfTables tables ++ body.parts ++ partsOfOrder order ++ partsOfOption offset ++ limit.parts

def partsOfTables : List InlineDef → List Part
  | [] => []
  | .mk _ _ q :: tables => q.parts ++ partsOfTables tables

def Limit.parts : Limit → List Part
  | .all => []
  | .rows count _ _ => count.parts

def Body.parts : Body → List Part
  | .select _ fields sources condition groups having =>
    partsOfSources sources ++ partsOfOption condition ++ partsOfList groups ++ partsOfOption having
      ++ partsOfFields fields
  | .combine _ _ left right => left.parts ++ right.parts
  | .nested q => q.parts

def partsOfFields : List Field → List Part
  | [] => []
  | .mk e _ :: fields => e.parts ++ partsOfFields fields

def partsOfSources : List Source → List Part
  | [] => []
  | s :: sources => s.parts ++ partsOfSources sources

def Source.parts : Source → List Part
  | .named _ _ | .dual _ | .stdin _ => []
  | .subquery q _ _ => q.parts
  | .values rows _ _ => partsOfRows rows
  | .join _ left right m =>
    left.parts ++ right.parts ++ m.parts ++
      if m.byName && (left.merges || right.merges) then [.rejoin] else []

def partsOfRows : List (List Expr) → List Part
  | [] => []
  | row :: rows => partsOfList row ++ partsOfRows rows

/-- All parts of a join condition. -/
def JoinMatch.parts : JoinMatch → List Part
  | .on e => e.parts
  | .always | .natural | .using _ => []

end

/-- An expression is a part of itself. -/
theorem Expr.self_mem_parts (e : Expr) : Part.expr e ∈ e.parts := by
  cases e <;> simp [Expr.parts]

end TableQuery
