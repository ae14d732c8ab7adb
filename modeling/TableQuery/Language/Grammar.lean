import TableQuery.Function.Aggregate
import TableQuery.Language.Parser
import TableQuery.Language.Query

/-!
# The grammar

Expressions, queries and sources contain each other. A grammar parses those that are nested to some
depth, and `Grammar.deeper` is the grammar of those that contain such ones. A text is never nested
deeper than it has tokens, so the grammar of that depth parses it.
-/

namespace TableQuery.Language

/-- The parsers of expressions, queries and sources that are nested to some depth. -/
structure Grammar where
  expression : Parser Expr
  query : Parser Query
  source : Parser Source

namespace Grammar

open Language.Parser

variable (g : Grammar)

/-! ## Atoms -/

def expressions : Parser (List Expr) :=
  commaSeparated g.expression

/-- An optional name of a sort direction. -/
def direction? : Token → Option Direction
  | .keyword .asc => some .asc
  | .keyword .desc => some .desc
  | _ => none

/-- An optional placement of NULLs. -/
def takeNulls? : Parser (Option NullPlacement) := do
  if ← takeWord "NULLS" then
    if ← takeWord "FIRST" then return some .first
    else if ← takeWord "LAST" then return some .last
    else unexpected "FIRST or LAST"
  else
    return none

def orderItem : Parser OrderItem := do
  let key ← g.expression
  let direction ← takeOperator? direction?
  return .mk key direction (← takeNulls?)

/-- An optional `ORDER BY` clause. -/
def order : Parser (List OrderItem) := do
  if ← takeKeyword .order then
    expectKeyword .by
    commaSeparated g.orderItem
  else
    return []

/-- A column, after its first name was taken. -/
def columnFrom (first : String) : Parser Expr := do
  if ← takeSymbol .dot then
    if ← takeSymbol .asterisk then return .tableColumns first
    else return .column (some first) (← expectName "column name")
  else
    return .column none first

/-- The branches of a `CASE` expression, `bound` at most. -/
def branches : (bound : Nat) → Parser (List Branch)
  | 0 => return []
  | bound + 1 => do
    if ← takeKeyword .when then
      let condition ← g.expression
      expectKeyword .then
      let result ← g.expression
      let rest ← branches bound
      return .mk condition result :: rest
    else
      return []

/-- A `CASE` expression, after its first word was taken. -/
def caseFrom : Parser Expr := do
  let operand ←
    if ← atKeyword .when then pure none
    else some <$> g.expression
  let branches ← g.branches (← remaining)
  if branches.isEmpty then unexpected "WHEN"
  let otherwise ← afterKeyword? .else g.expression
  expectKeyword .end
  return .case operand branches otherwise

/-- The `OVER` clause of a call, after the word was taken. -/
def windowFrom (name : String) (distinct : Bool) (args : List Expr) : Parser Expr := inParens do
  let partition ←
    if ← takeWord "PARTITION" then
      expectKeyword .by
      g.expressions
    else
      pure []
  return .window name distinct args partition (← g.order)

/-- The sort keys and the separator at the end of the arguments of `GROUP_CONCAT`. -/
def concatOptions : Parser (List OrderItem × List Expr) := do
  let order ← g.order
  if ← takeWord "SEPARATOR" then
    match ← peek with
    | .text s =>
      advance
      return (order, [.literal (.text s)])
    | _ => unexpected "separator string"
  else
    return (order, [])

/-- The names of the aggregates that join texts. -/
def joiningNames : List String :=
  ["LISTAGG", "GROUP_CONCAT"]

/-- A call whose name was taken. An aggregate is known by its name or by `DISTINCT`. -/
def callFrom (word : String) : Parser Expr := do
  let name := Text.upper word
  expectSymbol .leftParen
  let distinct ← takeKeyword .distinct
  let args ← if ← atSymbol .rightParen then pure [] else g.expressions
  let (order, separator) ← if name == "GROUP_CONCAT" then g.concatOptions else pure ([], [])
  expectSymbol .rightParen
  let args := args ++ separator
  let order ←
    if name == "LISTAGG" then
      if ← takeWord "WITHIN" then
        expectKeyword .group
        inParens g.order
      else
        pure order
    else
      pure order
  if ← takeWord "OVER" then g.windowFrom name distinct args
  else if joiningNames.contains name then return .listAggregate name distinct args order
  else if distinct || (Aggregate.ofName? name).isSome then return .aggregate name distinct args
  else return .call name args

/-- The value of a literal that is one token. -/
def literal? : Token → Option Literal
  | .integer i => some (.integer i)
  | .float f => some (.float f)
  | .text s => some (.text s)
  | .keyword .true => some (.truth .yes)
  | .keyword .false => some (.truth .no)
  | .keyword .unknown => some (.truth .unknown)
  | .keyword .null => some .null
  | _ => none

/-- What stands in parentheses: a subquery, an expression or a row. -/
def parenthesized : Parser Expr := inParens do
  if ← atQuery then
    return .subquery (← g.query)
  else
    match ← g.expressions with
    | [e] => return .parens e
    | items => return .rowValue items

/-- An expression without operators. -/
def primary : Parser Expr := do
  let token ← peek
  match literal? token, token with
  | some l, _ =>
    advance
    return .literal l
  | none, .symbol .asterisk =>
    advance
    return .allColumns
  | none, .variable name =>
    advance
    if ← takeSymbol .assign then return .assign name (← g.expression)
    else return .variable name
  | none, .keyword .exists =>
    advance
    return .existsIn (← inParens g.query)
  | none, .keyword .case =>
    advance
    g.caseFrom
  | none, .symbol .leftParen => g.parenthesized
  | none, .identifier name =>
    advance
    if ← atSymbol .leftParen then g.callFrom name
    else columnFrom name
  | none, .quoted name =>
    advance
    columnFrom name
  | none, _ => unexpected "expression"

/-! ## Operators -/

/-- An operand with signs in front. A minus sign and the number behind it are one literal. -/
def unary : Parser Expr
  | ⟨.symbol .minus, _⟩ :: ⟨.integer i, _⟩ :: rest => .ok (.literal (.integer (-i)), rest)
  | ⟨.symbol .minus, _⟩ :: ⟨.float f, _⟩ :: rest => .ok (.literal (.float (-f)), rest)
  | ⟨.symbol .minus, _⟩ :: rest => do
    let (e, rest) ← unary rest
    .ok (.signed .minus e, rest)
  | ⟨.symbol .plus, _⟩ :: rest => do
    let (e, rest) ← unary rest
    .ok (.signed .plus e, rest)
  | lexemes => g.primary lexemes

def factorOp? : Token → Option (Expr → Expr → Expr)
  | .symbol .asterisk => some (.arith .multiply)
  | .symbol .slash => some (.arith .divide)
  | .symbol .percent => some (.arith .remainder)
  | _ => none

def termOp? : Token → Option (Expr → Expr → Expr)
  | .symbol .plus => some (.arith .add)
  | .symbol .minus => some (.arith .subtract)
  | _ => none

def term : Parser Expr :=
  chain g.unary (takeOperator? factorOp?)

def sum : Parser Expr :=
  chain g.term (takeOperator? termOp?)

def concatenation : Parser Expr := do
  match ← separatedBy .concat g.sum with
  | [e] => return e
  | items => return .concat items

def compareOp? : Token → Option CompareOp
  | .symbol .equal => some .equal
  | .symbol .notEqual => some .notEqual
  | .symbol .less => some .less
  | .symbol .lessOrEqual => some .lessOrEqual
  | .symbol .greater => some .greater
  | .symbol .greaterOrEqual => some .greaterOrEqual
  | _ => none

/-- The values after `IN`, `ANY` and `ALL`. -/
def valueSource : Parser Expr := inParens do
  if ← atQuery then return .subquery (← g.query)
  else return .valueList (← g.expressions)

/-- The right side of `IS`. -/
def isOperand : Parser Literal := do
  match ← peek with
  | .keyword .null | .keyword .true | .keyword .false | .keyword .unknown =>
    let l := (literal? (← peek)).getD .null
    advance
    return l
  | _ => unexpected "NULL, TRUE, FALSE or UNKNOWN"

/-- Takes a `NOT` that belongs to the predicate after it. -/
def takeNegation : Parser Bool := do
  match ← peek, ← peekSecond with
  | .keyword .not, .keyword .between
  | .keyword .not, .keyword .like
  | .keyword .not, .keyword .in =>
    advance
    return true
  | _, _ => return false

/-- The rest of a comparison whose operator was taken. -/
def comparisonFrom (op : CompareOp) (left : Expr) : Parser Expr := do
  match ← peek with
  | .keyword .any | .keyword .some =>
    advance
    return .any op left (← g.valueSource)
  | .keyword .all =>
    advance
    return .all op left (← g.valueSource)
  | _ => return .compare op left (← g.concatenation)

/-- A predicate; comparisons do not chain. -/
def comparison : Parser Expr := do
  let left ← g.concatenation
  if ← takeKeyword .is then
    let negated ← takeKeyword .not
    return .is negated left (.literal (← isOperand))
  else
    let negated ← takeNegation
    match ← peek with
    | .keyword .between =>
      advance
      let low ← g.concatenation
      expectKeyword .and
      return .between negated left low (← g.concatenation)
    | .keyword .like =>
      advance
      return .like negated left (← g.concatenation)
    | .keyword .in =>
      advance
      return .isIn negated left (← g.valueSource)
    | _ =>
      match ← takeOperator? compareOp? with
      | some op => g.comparisonFrom op left
      | none => return left

/-- A predicate with `NOT`s in front. -/
def negation : Parser Expr
  | ⟨.keyword .not, _⟩ :: rest => do
    let (e, rest) ← negation rest
    .ok (.not e, rest)
  | lexemes => g.comparison lexemes

/-- The operator between two conditions that a keyword is. -/
def logicOp? (k : Keyword) (op : LogicOp) (token : Token) : Option (Expr → Expr → Expr) :=
  if token.isKeyword k then some (.logic op) else none

def conjunction : Parser Expr :=
  chain g.negation (takeOperator? (logicOp? .and .and))

def disjunction : Parser Expr :=
  chain g.conjunction (takeOperator? (logicOp? .or .or))

/-! ## Sources -/

/-- The rows of a `VALUES` list, after the word was taken. -/
def valueRows : Parser (List (List Expr)) :=
  commaSeparated (inParens g.expressions)

/-- The columns that may follow the alias of a table without a name of its own. -/
def sourceColumns (aliasName : Option String) : Parser (List String) := do
  if aliasName.isSome && (← atSymbol .leftParen) then columnNames
  else return []

def valuesSource (rows : List (List Expr)) : Parser Source := do
  let aliasName ← takeAlias? "table alias"
  return .values rows aliasName (← sourceColumns aliasName)

def subquerySource (q : Query) : Parser Source := do
  let aliasName ← takeAlias? "table alias"
  return .subquery q aliasName (← sourceColumns aliasName)

/-- What stands in parentheses as a source: values, a subquery or a join, which has no alias. -/
def parenthesizedSource : Parser Source := do
  if ← takeKeyword .values then
    let rows ← g.valueRows
    expectSymbol .rightParen
    valuesSource rows
  else if (← atQuery) || (← atSymbol .leftParen) then
    let q ← g.query
    expectSymbol .rightParen
    subquerySource q
  else
    let inner ← g.source
    expectSymbol .rightParen
    return inner

/-- The name of a table, which may have parts. -/
def tableName : Parser String := do
  let parts ← separatedBy .dot (expectName "table name")
  return ".".intercalate parts

/-- A source that is no join, unless it stands in parentheses. -/
def sourcePrimary : Parser Source := do
  match ← peek with
  | .keyword .dual =>
    advance
    return .dual (← takeAlias? "table alias")
  | .keyword .stdin =>
    advance
    return .stdin (← takeAlias? "table alias")
  | .keyword .values =>
    advance
    valuesSource (← g.valueRows)
  | .symbol .leftParen =>
    advance
    g.parenthesizedSource
  | .identifier _ | .quoted _ =>
    let name ← tableName
    return .named name (← takeAlias? "table alias")
  | _ => unexpected "table"

/-- The kind of a join, without the words `NATURAL` and `JOIN`. An inner join need not say so. -/
def takeJoinKind? : Parser (Option JoinKind) := do
  match ← peek with
  | .keyword .inner =>
    advance
    return some .inner
  | .keyword .left => outer .left
  | .keyword .right => outer .right
  | .keyword .full => outer .full
  | .keyword .join => return some .inner
  | _ => return none
where
  outer (kind : JoinKind) : Parser (Option JoinKind) := do
    advance
    let _ ← takeKeyword .outer
    return some kind

/-- The condition after a join; only an inner join may go without. -/
def joinMatch (kind : JoinKind) : Parser JoinMatch := do
  if ← takeKeyword .on then return .on (← g.expression)
  else if ← takeKeyword .using then return .using (← columnNames)
  else if kind == .inner then return .always
  else unexpected "ON or USING"

/-- The rest of a join, after the words before `JOIN` were taken. -/
def joinFrom (kind : JoinKind) (natural : Bool) (left : Source) : Parser Source := do
  expectKeyword .join
  let right ← g.sourcePrimary
  let matching ←
    if kind == .cross then pure .always
    else if natural then pure .natural
    else g.joinMatch kind
  return .join kind left right matching

/-- Joins to the right of a source, `bound` at most. -/
def joinsFrom : (bound : Nat) → Source → Parser Source
  | 0, left => return left
  | bound + 1, left => do
    if ← takeKeyword .cross then
      joinsFrom bound (← g.joinFrom .cross false left)
    else
      let natural ← takeKeyword .natural
      match ← takeJoinKind? with
      | some kind => joinsFrom bound (← g.joinFrom kind natural left)
      | none => if natural then unexpected "JOIN" else return left

def joinedSource : Parser Source := do
  let left ← g.sourcePrimary
  g.joinsFrom (← remaining) left

/-! ## Queries -/

def field : Parser Field := do
  let e ← g.expression
  return .mk e (← takeAlias? "alias")

/-- Whether duplicates are dropped: the word `ALL` says no, as does no word. -/
def takeDistinct : Parser Bool := do
  if ← takeKeyword .distinct then return true
  else
    let _ ← takeKeyword .all
    return false

/-- Whether duplicates are kept: the word `DISTINCT` says no, as does no word. -/
def takeAll : Parser Bool := do
  if ← takeKeyword .all then return true
  else
    let _ ← takeKeyword .distinct
    return false

def selectBody : Parser Body := do
  expectKeyword .select
  let distinct ← takeDistinct
  let fields ← commaSeparated g.field
  let sources ← afterKeyword? .from (commaSeparated g.source)
  let condition ← afterKeyword? .where g.expression
  let groups ← afterKeyword? .group do
    expectKeyword .by
    g.expressions
  let having ← afterKeyword? .having g.expression
  return .select distinct fields (sources.getD []) condition (groups.getD []) having

/-- An operand of a set operation. -/
def bodyPrimary : Parser Body := do
  if ← atSymbol .leftParen then return .nested (← inParens g.query)
  else g.selectBody

/-- A set operator and the word after it. -/
def takeSetOp? (op? : Token → Option SetOp) : Parser (Option (Body → Body → Body)) := do
  match ← takeOperator? op? with
  | some op => return some (.combine op (← takeAll))
  | none => return none

def intersectOp? : Token → Option SetOp
  | .keyword .intersect => some .intersect
  | _ => none

def unionOp? : Token → Option SetOp
  | .keyword .union => some .union
  | .keyword .except => some .except
  | _ => none

/-- A body; `INTERSECT` binds tighter than `UNION` and `EXCEPT`. -/
def body : Parser Body :=
  chain (chain g.bodyPrimary (takeSetOp? intersectOp?)) (takeSetOp? unionOp?)

def inlineDef : Parser InlineDef := do
  let name ← expectName "inline table name"
  let columns ← if ← atSymbol .leftParen then columnNames else pure []
  expectKeyword .as
  return .mk name columns (← inParens g.query)

/-- An optional `WITH` clause. -/
def inlineDefs : Parser (Bool × List InlineDef) := do
  if ← takeKeyword .with then
    let recursive ← takeKeyword .recursive
    return (recursive, ← commaSeparated g.inlineDef)
  else
    return (false, [])

/-- An optional `OFFSET` clause. -/
def offset : Parser (Option Expr) :=
  afterKeyword? .offset do
    let e ← g.expression
    if !(← takeWord "ROW") then
      let _ ← takeWord "ROWS"
    return e

/-- Takes the words that let ties with the last row in. -/
def takeTies : Parser Bool := do
  if (← peek).isKeyword .with && (← peekSecond).isWord "TIES" then
    advance
    advance
    return true
  else
    return false

/-- An optional `LIMIT` clause. -/
def limit : Parser Limit := do
  if ← takeKeyword .limit then
    let count ← g.expression
    let percent ← takeWord "PERCENT"
    return .rows count percent (← takeTies)
  else
    return .all

/-- A query; its `OFFSET` may stand before or after its `LIMIT`. -/
def fullQuery : Parser Query := do
  let (recursive, tables) ← g.inlineDefs
  let body ← g.body
  let order ← g.order
  let early ← g.offset
  let limit ← g.limit
  let offset ← if early.isSome then pure early else g.offset
  return .mk recursive tables body order offset limit

/-! ## Depth -/

/-- The grammar of what contains nothing. -/
def empty : Grammar where
  expression := unexpected "expression"
  query := unexpected "query"
  source := unexpected "table"

/-- The grammar of what contains expressions, queries and sources of `g`. -/
def deeper : Grammar where
  expression := g.disjunction
  query := g.fullQuery
  source := g.joinedSource

/-- The grammar of what is nested to a certain depth. -/
def ofDepth : Nat → Grammar
  | 0 => empty
  | depth + 1 => (ofDepth depth).deeper

/-- One query, after which a semicolon may stand. -/
def statement : Parser Query := do
  let q ← g.query
  let _ ← takeSymbol .semicolon
  expectEnding
  return q

/-- Takes semicolons, `bound` at most. -/
def skipSemicolons : (bound : Nat) → Parser Unit
  | 0 => return ()
  | bound + 1 => do
    if ← takeSymbol .semicolon then skipSemicolons bound

/-- Queries with semicolons between them, `bound` at most. -/
def statements : (bound : Nat) → Parser (List Query)
  | 0 => return []
  | bound + 1 => do
    skipSemicolons (← remaining)
    match ← peek with
    | .ending => return []
    | _ =>
      let q ← g.query
      match ← peek with
      | .ending => return [q]
      | _ =>
        expectSymbol .semicolon
        let qs ← statements bound
        return q :: qs

end Grammar

/-- Parses the lexemes of a text by a parser of the grammar that is deep enough for them. -/
def parseWith {α : Type} (parser : Grammar → Parser α) (text : String) : Except QueryError α := do
  let ls ← lexemes text
  let (x, _) ← parser (Grammar.ofDepth ls.length) ls
  return x

/-- The expression at the start of a text. -/
def parseExpr (text : String) : Except QueryError Expr :=
  parseWith Grammar.expression text

/-- The query that a text is. -/
def parseQuery (text : String) : Except QueryError Query :=
  parseWith Grammar.statement text

/-- The queries of a text, which are separated by semicolons. -/
def parseQueries (text : String) : Except QueryError (List Query) :=
  parseWith (fun g => do g.statements (← Parser.remaining)) text

end TableQuery.Language
