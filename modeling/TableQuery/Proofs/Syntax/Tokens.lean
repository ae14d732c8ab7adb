import TableQuery.Language.Canonical
import TableQuery.Language.Lexeme

/-!
# The tokens of canonical texts

The tokens that the canonical text of an expression or a query consists of, read off the syntax. A
number below zero is two tokens, and a table name is as many as it has parts.
-/

namespace TableQuery

open TableQuery.Language

/-! ## Words and symbols -/

def ArithOp.symbol : ArithOp → Symbol
  | add => .plus
  | subtract => .minus
  | multiply => .asterisk
  | divide => .slash
  | remainder => .percent

def Sign.symbol : Sign → Symbol
  | plus => .plus
  | minus => .minus

def CompareOp.symbol : CompareOp → Symbol
  | equal => .equal
  | notEqual => .notEqual
  | less => .less
  | lessOrEqual => .lessOrEqual
  | greater => .greater
  | greaterOrEqual => .greaterOrEqual

def LogicOp.keyword : LogicOp → Keyword
  | and => .and
  | or => .or

def SetOp.keyword : SetOp → Keyword
  | union => .union
  | except => .except
  | intersect => .intersect

def JoinKind.keyword : JoinKind → Keyword
  | cross => .cross
  | inner => .inner
  | left => .left
  | right => .right
  | full => .full

def Direction.keyword : Direction → Keyword
  | asc => .asc
  | desc => .desc

def Truth.keyword : Truth → Keyword
  | yes => .true
  | no => .false
  | unknown => .unknown

@[simp]
theorem ArithOp.text_symbol (op : ArithOp) : op.symbol.text = op.text := by
  cases op <;> rfl

@[simp]
theorem CompareOp.text_symbol (op : CompareOp) : op.symbol.text = op.text := by
  cases op <;> rfl

@[simp]
theorem LogicOp.text_keyword (op : LogicOp) : op.keyword.text = op.text := by
  cases op <;> rfl

@[simp]
theorem SetOp.text_keyword (op : SetOp) : op.keyword.text = op.text := by
  cases op <;> rfl

@[simp]
theorem JoinKind.text_keyword (kind : JoinKind) : kind.keyword.text = kind.text := by
  cases kind <;> rfl

@[simp]
theorem Direction.text_keyword (d : Direction) : d.keyword.text = d.text := by
  cases d <;> rfl

@[simp]
theorem Truth.text_keyword (t : Truth) : t.keyword.text = t.name := by
  cases t <;> rfl

/-! ## Pieces -/

/-- The token if the flag is set. -/
def tokenIf (flag : Bool) (t : Token) : List Token :=
  if flag then [t] else []

/-- The tokens of items with a separator between them. -/
def separated (separator : Symbol) : List (List Token) → List Token
  | [] => []
  | [ts] => ts
  | ts :: us :: items => ts ++ .symbol separator :: separated separator (us :: items)

/-- The tokens of items with commas between them. -/
abbrev commaTokens : List (List Token) → List Token :=
  separated .comma

/-- The tokens in parentheses. -/
def parenTokens (ts : List Token) : List Token :=
  .symbol .leftParen :: (ts ++ [.symbol .rightParen])

def nameTokens (names : List String) : List (List Token) :=
  names.map fun name => [.identifier name]

/-- Whether the text of a float starts with a minus sign. -/
def isNegative (f : Float) : Bool :=
  f.toBits.toNat / Number.pow2 63 % 2 == 1

def Literal.tokens : Literal → List Token
  | integer i => if i < 0 then [.symbol .minus, .integer (-i)] else [.integer i]
  | float f => if isNegative f then [.symbol .minus, .float (-f)] else [.float f]
  | text s => [.text s]
  | truth t => [.keyword t.keyword]
  | null => [.keyword .null]

def aliasTokens : Option String → List Token
  | none => []
  | some name => [.keyword .as, .identifier name]

def columnsTokens (names : List String) : List Token :=
  if names.isEmpty then [] else parenTokens (commaTokens (nameTokens names))

def directionTokens : Option Direction → List Token
  | none => []
  | some d => [.keyword d.keyword]

def nullsTokens : Option NullPlacement → List Token
  | none => []
  | some .first => [.identifier "NULLS", .identifier "FIRST"]
  | some .last => [.identifier "NULLS", .identifier "LAST"]

def orderByTokens (items : List (List Token)) : List Token :=
  if items.isEmpty then [] else .keyword .order :: .keyword .by :: commaTokens items

def overTokens (partition order : List (List Token)) : List Token :=
  (if partition.isEmpty then []
    else .identifier "PARTITION" :: .keyword .by :: commaTokens partition) ++ orderByTokens order

/-- The parts of a table name. -/
def tableParts (name : String) : List String :=
  (name.toList.splitOn '.').map String.ofList

theorem tableParts_ne_nil (name : String) : tableParts name ≠ [] := by
  simp [tableParts, List.splitOn_ne_nil]

theorem intercalate_tableParts (name : String) : ".".intercalate (tableParts name) = name := by
  have parts : (tableParts name).map String.toList = name.toList.splitOn '.' := by
    simp [tableParts]
  rw [← String.toList_inj, String.toList_intercalate, parts]
  exact List.intercalate_splitOn '.'

def tableTokens (name : String) : List Token :=
  separated .dot (nameTokens (tableParts name))

/-- Whether a join says that it is natural. -/
def JoinMatch.isNatural : JoinMatch → Bool
  | .natural => true
  | _ => false

def JoinMatch.leadTokens (m : JoinMatch) : List Token :=
  tokenIf m.isNatural (.keyword .natural)

/-! ## Expressions and queries -/

mutual

/-- The tokens of the canonical text of an expression. -/
def Expr.tokens : Expr → List Token
  | .literal l => l.tokens
  | .column none name => [.identifier name]
  | .column (some table) name => [.identifier table, .symbol .dot, .identifier name]
  | .allColumns => [.symbol .asterisk]
  | .tableColumns table => [.identifier table, .symbol .dot, .symbol .asterisk]
  | .parens e => parenTokens e.tokens
  | .arith op a b => a.tokens ++ .symbol op.symbol :: b.tokens
  | .signed sign e => .symbol sign.symbol :: e.tokens
  | .concat items => separated .concat (exprTokens items)
  | .compare op a b => a.tokens ++ .symbol op.symbol :: b.tokens
  | .is negated e value =>
    e.tokens ++ .keyword .is :: (tokenIf negated (.keyword .not) ++ value.tokens)
  | .between negated e low high =>
    e.tokens ++ (tokenIf negated (.keyword .not)
      ++ .keyword .between :: (low.tokens ++ .keyword .and :: high.tokens))
  | .like negated e pattern =>
    e.tokens ++ (tokenIf negated (.keyword .not) ++ .keyword .like :: pattern.tokens)
  | .isIn negated e values =>
    e.tokens ++ (tokenIf negated (.keyword .not) ++ .keyword .in :: values.tokens)
  | .any op e values => e.tokens ++ .symbol op.symbol :: .keyword .any :: values.tokens
  | .all op e values => e.tokens ++ .symbol op.symbol :: .keyword .all :: values.tokens
  | .existsIn q => .keyword .exists :: parenTokens q.tokens
  | .subquery q => parenTokens q.tokens
  | .rowValue items => parenTokens (commaTokens (exprTokens items))
  | .valueList items => parenTokens (commaTokens (exprTokens items))
  | .call name args => .identifier name :: parenTokens (commaTokens (exprTokens args))
  | .aggregate name distinct args =>
    .identifier name
      :: parenTokens (tokenIf distinct (.keyword .distinct) ++ commaTokens (exprTokens args))
  | .listAggregate name distinct args order =>
    .identifier name
      :: (parenTokens (tokenIf distinct (.keyword .distinct) ++ commaTokens (exprTokens args))
      ++ if order.isEmpty then []
        else .identifier "WITHIN" :: .keyword .group
          :: parenTokens (orderByTokens (orderTokens order)))
  | .window name distinct args partition order =>
    .identifier name
      :: (parenTokens (tokenIf distinct (.keyword .distinct) ++ commaTokens (exprTokens args))
      ++ .identifier "OVER" :: parenTokens (overTokens (exprTokens partition) (orderTokens order)))
  | .case operand branches otherwise =>
    .keyword .case :: (clauseTokens [] operand ++ (branchTokens branches
      ++ (clauseTokens [.keyword .else] otherwise ++ [.keyword .end])))
  | .logic op a b => a.tokens ++ .keyword op.keyword :: b.tokens
  | .not e => .keyword .not :: e.tokens
  | .variable name => [.variable name]
  | .assign name value => .variable name :: .symbol .assign :: value.tokens

def exprTokens : List Expr → List (List Token)
  | [] => []
  | e :: es => e.tokens :: exprTokens es

/-- The tokens of an optional expression after those that introduce it. -/
def clauseTokens (lead : List Token) : Option Expr → List Token
  | none => []
  | some e => lead ++ e.tokens

def orderTokens : List OrderItem → List (List Token)
  | [] => []
  | .mk key direction nulls :: items =>
    (key.tokens ++ (directionTokens direction ++ nullsTokens nulls)) :: orderTokens items

def branchTokens : List Branch → List Token
  | [] => []
  | .mk condition result :: branches =>
    .keyword .when :: (condition.tokens ++ .keyword .then :: (result.tokens
      ++ branchTokens branches))

/-- The tokens of the canonical text of a query. -/
def Query.tokens : Query → List Token
  | .mk recursive tables body order offset limit =>
    (if tables.isEmpty then []
      else .keyword .with
        :: (tokenIf recursive (.keyword .recursive) ++ commaTokens (inlineTokens tables)))
      ++ (body.tokens ++ (orderByTokens (orderTokens order)
      ++ (clauseTokens [.keyword .offset] offset ++ limit.tokens)))

def inlineTokens : List InlineDef → List (List Token)
  | [] => []
  | .mk name columns query :: tables =>
    (.identifier name :: (columnsTokens columns ++ .keyword .as :: parenTokens query.tokens))
      :: inlineTokens tables

def Limit.tokens : Limit → List Token
  | .all => []
  | .rows count percent ties =>
    .keyword .limit :: (count.tokens ++ (tokenIf percent (.identifier "PERCENT")
      ++ if ties then [.keyword .with, .identifier "TIES"] else []))

def Body.tokens : Body → List Token
  | .select distinct fields sources condition groups having =>
    .keyword .select :: (tokenIf distinct (.keyword .distinct) ++ (commaTokens (fieldTokens fields)
      ++ ((if sources.isEmpty then [] else .keyword .from :: commaTokens (sourceTokens sources))
      ++ (clauseTokens [.keyword .where] condition
      ++ ((if groups.isEmpty then []
        else .keyword .group :: .keyword .by :: commaTokens (exprTokens groups))
      ++ clauseTokens [.keyword .having] having)))))
  | .combine op all left right =>
    left.tokens ++ .keyword op.keyword :: (tokenIf all (.keyword .all) ++ right.tokens)
  | .nested q => parenTokens q.tokens

def fieldTokens : List Field → List (List Token)
  | [] => []
  | .mk e aliasName :: fields => (e.tokens ++ aliasTokens aliasName) :: fieldTokens fields

def sourceTokens : List Source → List (List Token)
  | [] => []
  | s :: sources => s.tokens :: sourceTokens sources

def Source.tokens : Source → List Token
  | .named name aliasName => tableTokens name ++ aliasTokens aliasName
  | .dual aliasName => .keyword .dual :: aliasTokens aliasName
  | .stdin aliasName => .keyword .stdin :: aliasTokens aliasName
  | .subquery q aliasName columns =>
    parenTokens q.tokens ++ (aliasTokens aliasName ++ columnsTokens columns)
  | .values rows aliasName columns =>
    parenTokens (.keyword .values :: commaTokens (rowTokens rows))
      ++ (aliasTokens aliasName ++ columnsTokens columns)
  | .join kind left right matching =>
    left.tokens ++ (matching.leadTokens
      ++ .keyword kind.keyword :: .keyword .join :: (right.tokens ++ matching.tokens))

def rowTokens : List (List Expr) → List (List Token)
  | [] => []
  | row :: rows => parenTokens (commaTokens (exprTokens row)) :: rowTokens rows

def JoinMatch.tokens : JoinMatch → List Token
  | .always | .natural => []
  | .on e => .keyword .on :: e.tokens
  | .using names => .keyword .using :: parenTokens (commaTokens (nameTokens names))

end

end TableQuery
