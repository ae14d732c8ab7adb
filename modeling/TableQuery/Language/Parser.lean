import TableQuery.Language.Lexeme

/-!
# Parsers

A parser takes lexemes from the front of a list. The list ends with the end of the text, which no
parser takes but the one that asks for it.
-/

namespace TableQuery.Language

/-- A parser: it takes lexemes from the front and gives what they stand for. -/
abbrev Parser (α : Type) := StateT (List Lexeme) (Except QueryError) α

namespace Token

def isKeyword (k : Keyword) : Token → Bool
  | keyword l => k == l
  | _ => false

def isSymbol (s : Symbol) : Token → Bool
  | symbol t => s == t
  | _ => false

/-- Whether the token is a certain word, in any case, that is not reserved. -/
def isWord (word : String) : Token → Bool
  | identifier name => Text.sameIgnoringCase name word
  | _ => false

/-- The name that a token is, quoted or not. -/
def name? : Token → Option String
  | identifier name => some name
  | quoted name => some name
  | _ => none

end Token

namespace Parser

/-- The next lexeme. -/
def next : Parser Lexeme := do
  return (← get).headD ⟨.ending, 0⟩

/-- The next token. -/
def peek : Parser Token := do
  return (← next).token

/-- The token after the next one. -/
def peekSecond : Parser Token := do
  return ((← get).tail.headD ⟨.ending, 0⟩).token

/-- Takes the next token. -/
def advance : Parser Unit :=
  modify List.tail

/-- How many lexemes there are. -/
def remaining : Parser Nat := do
  return (← get).length

/-- Fails at the next token, where something else is expected. -/
def unexpected {α : Type} (expected : String) : Parser α := do
  let lexeme ← next
  throw (.badSyntax (.unexpectedToken expected lexeme.token.display) lexeme.position)

/-- Takes the next token if it passes the test, and says whether it did. -/
def takeIf (test : Token → Bool) : Parser Bool := do
  if test (← peek) then
    advance
    return true
  else
    return false

def takeKeyword (k : Keyword) : Parser Bool :=
  takeIf (Token.isKeyword k)

def takeSymbol (s : Symbol) : Parser Bool :=
  takeIf (Token.isSymbol s)

def takeWord (word : String) : Parser Bool :=
  takeIf (Token.isWord word)

def atKeyword (k : Keyword) : Parser Bool := do
  return (← peek).isKeyword k

def atSymbol (s : Symbol) : Parser Bool := do
  return (← peek).isSymbol s

/-- Whether a query starts here. -/
def atQuery : Parser Bool := do
  let t ← peek
  return t.isKeyword .select || t.isKeyword .with

def expectKeyword (k : Keyword) : Parser Unit := do
  if !(← takeKeyword k) then unexpected k.text

def expectSymbol (s : Symbol) : Parser Unit := do
  if !(← takeSymbol s) then unexpected s.text

/-- Takes the end of the text. -/
def expectEnding : Parser Unit := do
  match ← peek with
  | .ending => advance
  | _ => unexpected Token.ending.display

/-- Takes a name, if one comes next. -/
def takeName? : Parser (Option String) := do
  match (← peek).name? with
  | some name =>
    advance
    return some name
  | none => return none

/-- Takes a name; `what` says which one is expected. -/
def expectName (what : String) : Parser String := do
  match ← takeName? with
  | some name => return name
  | none => unexpected what

/-- Takes an optional alias, with or without `AS` in front. -/
def takeAlias? (what : String) : Parser (Option String) := do
  if ← takeKeyword .as then
    return some (← expectName what)
  else
    takeName?

/-- Parses `item` if the keyword is taken. -/
def afterKeyword? {α : Type} (k : Keyword) (item : Parser α) : Parser (Option α) := do
  if ← takeKeyword k then
    return some (← item)
  else
    return none

/-- Parses what stands between parentheses. -/
def inParens {α : Type} (item : Parser α) : Parser α := do
  expectSymbol .leftParen
  let x ← item
  expectSymbol .rightParen
  return x

/-- Parses items as long as a separator is taken in front of them, `bound` at most. -/
def itemsAfter {α : Type} (separator : Symbol) (item : Parser α) : (bound : Nat) → Parser (List α)
  | 0 => return []
  | bound + 1 => do
    if ← takeSymbol separator then
      let x ← item
      let xs ← itemsAfter separator item bound
      return x :: xs
    else
      return []

/-- Parses one item or more, with separators between them. -/
def separatedBy {α : Type} (separator : Symbol) (item : Parser α) : Parser (List α) := do
  let x ← item
  let xs ← itemsAfter separator item (← remaining)
  return x :: xs

/-- Parses one item or more, with commas between them. -/
def commaSeparated {α : Type} (item : Parser α) : Parser (List α) :=
  separatedBy .comma item

/-- Parses operands as long as an operator is taken in front of them, and combines them from the
left, `bound` at most. -/
def chainFrom {α : Type} (operand : Parser α) (operator? : Parser (Option (α → α → α))) :
    (bound : Nat) → α → Parser α
  | 0, left => return left
  | bound + 1, left => do
    match ← operator? with
    | none => return left
    | some combine =>
      let right ← operand
      chainFrom operand operator? bound (combine left right)

/-- Parses one operand or more, with operators between them that associate to the left. -/
def chain {α : Type} (operand : Parser α) (operator? : Parser (Option (α → α → α))) : Parser α := do
  let left ← operand
  chainFrom operand operator? (← remaining) left

/-- Takes an operator that is written as one token. -/
def takeOperator? {α : Type} (operator? : Token → Option α) : Parser (Option α) := do
  match operator? (← peek) with
  | some op =>
    advance
    return some op
  | none => return none

/-- Parses column names in parentheses. -/
def columnNames : Parser (List String) :=
  inParens (commaSeparated (expectName "column name"))

end Parser

end TableQuery.Language
