import TableQuery.Language.Query

/-!
# Canonical text

The text by which an expression or a query is named: in the labels of unnamed columns, in error
messages, and to find values that were computed before. Names are written as they are, without
quotes.
-/

namespace TableQuery

/-- A list with commas between its items. -/
def commaList (items : List String) : String :=
  ", ".intercalate items

/-- A text in single quotes, in which single quotes are doubled. -/
def quotedText (s : String) : String :=
  let doubled (c : Char) : List Char := if c == '\x27' then [c, c] else [c]
  String.ofList ('\x27' :: s.toList.flatMap doubled ++ ['\x27'])

def Literal.canonical : Literal → String
  | integer i => Value.integerText i
  | float f => Number.floatText f
  | text s => quotedText s
  | truth t => t.name
  | null => "NULL"

/-- `word` and a blank if the flag is set. -/
def wordIf (flag : Bool) (word : String) : String :=
  if flag then word ++ " " else ""

def aliasText : Option String → String
  | none => ""
  | some name => " AS " ++ name

/-- Column names in parentheses; nothing if there are none. -/
def columnsText (names : List String) : String :=
  if names.isEmpty then "" else " (" ++ commaList names ++ ")"

def Direction.suffix : Option Direction → String
  | none => ""
  | some d => " " ++ d.text

def NullPlacement.suffix : Option NullPlacement → String
  | none => ""
  | some n => " " ++ n.text

/-- A list of sort keys as a clause; nothing if there are none. -/
def orderText (items : List String) : String :=
  if items.isEmpty then "" else "ORDER BY " ++ commaList items

/-- What stands in the parentheses after `OVER`. -/
def overText (partition order : List String) : String :=
  (if partition.isEmpty then "" else "PARTITION BY " ++ commaList partition)
    ++ (if partition.isEmpty || order.isEmpty then "" else " ") ++ orderText order

/-- The word in front of the kind of a natural join. -/
def JoinMatch.lead : JoinMatch → String
  | .natural => "NATURAL "
  | _ => ""

mutual

/-- The canonical text of an expression. -/
def Expr.text : Expr → String
  | .literal l => l.canonical
  | .column none name => name
  | .column (some table) name => table ++ "." ++ name
  | .allColumns => "*"
  | .tableColumns table => table ++ ".*"
  | .parens e => "(" ++ e.text ++ ")"
  | .arith op a b => a.text ++ " " ++ op.text ++ " " ++ b.text
  | .signed sign e => sign.text ++ e.text
  | .concat items => " || ".intercalate (exprTexts items)
  | .compare op a b => a.text ++ " " ++ op.text ++ " " ++ b.text
  | .is negated e value => e.text ++ " IS " ++ wordIf negated "NOT" ++ value.text
  | .between negated e low high =>
    e.text ++ " " ++ wordIf negated "NOT" ++ "BETWEEN " ++ low.text ++ " AND " ++ high.text
  | .like negated e pattern => e.text ++ " " ++ wordIf negated "NOT" ++ "LIKE " ++ pattern.text
  | .isIn negated e values => e.text ++ " " ++ wordIf negated "NOT" ++ "IN " ++ values.text
  | .any op e values => e.text ++ " " ++ op.text ++ " ANY " ++ values.text
  | .all op e values => e.text ++ " " ++ op.text ++ " ALL " ++ values.text
  | .existsIn q => "EXISTS (" ++ q.text ++ ")"
  | .subquery q => "(" ++ q.text ++ ")"
  | .rowValue items => "(" ++ commaList (exprTexts items) ++ ")"
  | .valueList items => "(" ++ commaList (exprTexts items) ++ ")"
  | .call name args => name ++ "(" ++ commaList (exprTexts args) ++ ")"
  | .aggregate name distinct args =>
    name ++ "(" ++ wordIf distinct "DISTINCT" ++ commaList (exprTexts args) ++ ")"
  | .listAggregate name distinct args order =>
    name ++ "(" ++ wordIf distinct "DISTINCT" ++ commaList (exprTexts args) ++ ")"
      ++ (if order.isEmpty then "" else " WITHIN GROUP (" ++ orderText (orderTexts order) ++ ")")
  | .window name distinct args partition order =>
    name ++ "(" ++ wordIf distinct "DISTINCT" ++ commaList (exprTexts args) ++ ") OVER ("
      ++ overText (exprTexts partition) (orderTexts order) ++ ")"
  | .case operand branches otherwise =>
    "CASE" ++ clauseText " " operand ++ branchTexts branches ++ clauseText " ELSE " otherwise
      ++ " END"
  | .logic op a b => a.text ++ " " ++ op.text ++ " " ++ b.text
  | .not e => "NOT " ++ e.text
  | .variable name => "@" ++ name
  | .assign name value => "@" ++ name ++ " := " ++ value.text

def exprTexts : List Expr → List String
  | [] => []
  | e :: es => e.text :: exprTexts es

/-- An optional expression after the word that introduces it. -/
def clauseText (word : String) : Option Expr → String
  | none => ""
  | some e => word ++ e.text

def orderTexts : List OrderItem → List String
  | [] => []
  | .mk key direction nulls :: items =>
    (key.text ++ Direction.suffix direction ++ NullPlacement.suffix nulls) :: orderTexts items

def branchTexts : List Branch → String
  | [] => ""
  | .mk condition result :: branches =>
    " WHEN " ++ condition.text ++ " THEN " ++ result.text ++ branchTexts branches

/-- The canonical text of a query. -/
def Query.text : Query → String
  | .mk recursive tables body order offset limit =>
    (if tables.isEmpty then ""
      else "WITH " ++ wordIf recursive "RECURSIVE" ++ commaList (inlineTexts tables) ++ " ")
      ++ body.text
      ++ (if order.isEmpty then "" else " " ++ orderText (orderTexts order))
      ++ clauseText " OFFSET " offset ++ limit.text

def inlineTexts : List InlineDef → List String
  | [] => []
  | .mk name columns query :: tables =>
    (name ++ columnsText columns ++ " AS (" ++ query.text ++ ")") :: inlineTexts tables

def Limit.text : Limit → String
  | .all => ""
  | .rows count percent ties =>
    " LIMIT " ++ count.text ++ (if percent then " PERCENT" else "")
      ++ (if ties then " WITH TIES" else "")

def Body.text : Body → String
  | .select distinct fields sources condition groups having =>
    "SELECT " ++ wordIf distinct "DISTINCT" ++ commaList (fieldTexts fields)
      ++ (if sources.isEmpty then "" else " FROM " ++ commaList (sourceTexts sources))
      ++ clauseText " WHERE " condition
      ++ (if groups.isEmpty then "" else " GROUP BY " ++ commaList (exprTexts groups))
      ++ clauseText " HAVING " having
  | .combine op all left right =>
    left.text ++ " " ++ op.text ++ " " ++ wordIf all "ALL" ++ right.text
  | .nested q => "(" ++ q.text ++ ")"

def fieldTexts : List Field → List String
  | [] => []
  | .mk e aliasName :: fields => (e.text ++ aliasText aliasName) :: fieldTexts fields

def sourceTexts : List Source → List String
  | [] => []
  | s :: sources => s.text :: sourceTexts sources

def Source.text : Source → String
  | .named name aliasName => name ++ aliasText aliasName
  | .dual aliasName => "DUAL" ++ aliasText aliasName
  | .stdin aliasName => "STDIN" ++ aliasText aliasName
  | .subquery q aliasName columns =>
    "(" ++ q.text ++ ")" ++ aliasText aliasName ++ columnsText columns
  | .values rows aliasName columns =>
    "(VALUES " ++ commaList (rowTexts rows) ++ ")" ++ aliasText aliasName ++ columnsText columns
  | .join kind left right matching =>
    left.text ++ " " ++ matching.lead ++ kind.text ++ " JOIN " ++ right.text ++ matching.text

def rowTexts : List (List Expr) → List String
  | [] => []
  | row :: rows => ("(" ++ commaList (exprTexts row) ++ ")") :: rowTexts rows

def JoinMatch.text : JoinMatch → String
  | .always => ""
  | .natural => ""
  | .on e => " ON " ++ e.text
  | .using names => " USING (" ++ commaList names ++ ")"

end

end TableQuery
