/-!
# Errors

What can go wrong between a text and its result, as causes. `QueryError.message` is the only place
that words them.
-/

namespace TableQuery

/-- How many arguments a function takes. -/
structure Arity where
  least : Nat
  most : Option Nat
  deriving DecidableEq, Repr

namespace Arity

/-- Exactly `n` arguments. -/
def exactly (n : Nat) : Arity := ⟨n, some n⟩

/-- `n` arguments or more. -/
def atLeast (n : Nat) : Arity := ⟨n, none⟩

/-- Between `least` and `most` arguments. -/
def between (least most : Nat) : Arity := ⟨least, some most⟩

/-- Whether a call with `n` arguments is fine. -/
def accepts (a : Arity) (n : Nat) : Bool :=
  a.least ≤ n && a.most.all (n ≤ ·)

def argumentWord (n : Nat) : String :=
  if n == 1 then " argument" else " arguments"

/-- The count in words. -/
def text (a : Arity) : String :=
  match a.most with
  | some m =>
    if m == a.least then "exactly " ++ toString m ++ argumentWord m
    else toString a.least ++ " to " ++ toString m ++ " arguments"
  | none => "at least " ++ toString a.least ++ argumentWord a.least

end Arity

/-- What an argument has to be. -/
inductive Requirement where
  | integer
  | positive
  | text
  deriving DecidableEq, Repr

def Requirement.message : Requirement → String
  | integer => "an integer"
  | positive => "greater than 0"
  | text => "a string"

/-- The word for the place of an argument, counted from 0. -/
def ordinalWord : Nat → String
  | 0 => "first"
  | 1 => "second"
  | 2 => "third"
  | _ => "next"

/-- Why a text is not a statement. -/
inductive SyntaxFault where
  | unexpectedCharacter (c : Char)
  | unterminatedComment
  | unterminatedString
  | unterminatedIdentifier
  | invalidNumber (digits : String)
  | missingVariableName
  /-- The token `found` stands where something else must follow. -/
  | unexpectedToken (expected found : String)
  /-- The text holds `count` statements and not one. -/
  | statementCount (count : Nat)
  deriving DecidableEq, Repr

def SyntaxFault.message : SyntaxFault → String
  | unexpectedCharacter c => "unexpected character '" ++ String.singleton c ++ "'"
  | unterminatedComment => "unterminated comment"
  | unterminatedString => "unterminated string literal"
  | unterminatedIdentifier => "unterminated quoted identifier"
  | invalidNumber digits => "invalid number '" ++ digits ++ "'"
  | missingVariableName => "variable name expected after '@'"
  | unexpectedToken expected found => "expected " ++ expected ++ ", found " ++ found
  | statementCount count => "expected exactly one statement, found " ++ toString count

/-- Why a text is not accepted or a query has no result. Expressions and queries are named by their
canonical text. -/
inductive QueryError where
  /-- The text is no statement; the position counts characters. -/
  | badSyntax (fault : SyntaxFault) (position : Nat)
  | noSuchField (field : String)
  | ambiguousField (field : String)
  /-- A column of a grouped view that is not one of its keys. -/
  | notGroupKey (field : String)
  | rowWidth (expression : String) (expected : Nat)
  | tooManyRecords (query : String)
  | tooManyFields (query : String)
  /-- An aggregate over a view that is not grouped. -/
  | notGrouped (function : String)
  | nestedAggregate (call : String)
  | noSuchFunction (function : String)
  | argumentCount (function : String) (arity : Arity)
  | badArgument (function : String) (position : Nat) (requirement : Requirement)
  | functionRedeclared (function : String)
  | badWildcard (call : String)
  /-- A function that needs records where there are none. -/
  | functionNotAllowed (function : String)
  | undeclaredVariable (name : String)
  | variableRedeclared (name : String)
  | undeclaredCursor (cursor : String)
  | cursorRedeclared (cursor : String)
  | cursorAlreadyOpen (cursor : String)
  | cursorClosed (cursor : String)
  | pseudoCursor (cursor : String)
  | noSuchTable (table : String)
  | undeclaredView (view : String)
  | viewRedeclared (view : String)
  | combinedWidth (expression : String) (expected : Nat)
  | inlineTableWidth (table : String) (expected : Nat)
  /-- A row, counted from 1, that is not as wide as its table. -/
  | raggedRow (table : String) (row width expected : Nat)
  /-- A list of column names that is not as long as its table is wide. -/
  | columnCount (table : String)
  | badOffset (expression : String)
  | badLimit (expression : String)
  | badPercentage (expression : String)
  | unknownZone (text : String)
  /-- A user-defined function refused its arguments. -/
  | functionFailed (reason : String)
  /-- A recursive table that still grows after as many rounds as the engine allows. -/
  | endlessRecursion (table : String)
  deriving DecidableEq, Repr

namespace QueryError

/-- The error in words. -/
def message : QueryError → String
  | badSyntax fault position =>
    "syntax error at position " ++ toString position ++ ": " ++ fault.message
  | noSuchField field => "field " ++ field ++ " does not exist"
  | ambiguousField field => "field " ++ field ++ " is ambiguous"
  | notGroupKey field => "field " ++ field ++ " is not a group key"
  | rowWidth expression expected =>
    "row value should contain exactly " ++ toString expected ++ " values: " ++ expression
  | tooManyRecords query => "subquery returns too many records: " ++ query
  | tooManyFields query => "subquery returns too many fields: " ++ query
  | notGrouped function => "function " ++ function ++ " cannot aggregate not grouping records"
  | nestedAggregate call => "aggregate functions are nested at " ++ call
  | noSuchFunction function => "function " ++ function ++ " does not exist"
  | argumentCount function arity => "function " ++ function ++ " takes " ++ arity.text
  | badArgument function position requirement =>
    "the " ++ ordinalWord position ++ " argument of function " ++ function ++ " must be "
      ++ requirement.message
  | functionRedeclared function => "function " ++ function ++ " is redeclared"
  | badWildcard call => "wildcard is not permitted in " ++ call
  | functionNotAllowed function => "function " ++ function ++ " cannot be used here"
  | undeclaredVariable name => "variable " ++ name ++ " is undeclared"
  | variableRedeclared name => "variable " ++ name ++ " is redeclared"
  | undeclaredCursor cursor => "cursor " ++ cursor ++ " is undeclared"
  | cursorRedeclared cursor => "cursor " ++ cursor ++ " is redeclared"
  | cursorAlreadyOpen cursor => "cursor " ++ cursor ++ " is already open"
  | cursorClosed cursor => "cursor " ++ cursor ++ " is closed"
  | pseudoCursor cursor => cursor ++ " is a pseudo cursor"
  | noSuchTable table => "table " ++ table ++ " does not exist"
  | undeclaredView view => "view " ++ view ++ " is undeclared"
  | viewRedeclared view => "view " ++ view ++ " is redeclared"
  | combinedWidth expression expected =>
    "result set to be combined should contain exactly " ++ toString expected ++ " fields: "
      ++ expression
  | inlineTableWidth table expected =>
    "select query should return exactly " ++ toString expected ++ " fields for inline table "
      ++ table
  | raggedRow table row width expected =>
    "field length does not match: row " ++ toString row ++ " of " ++ table ++ " has "
      ++ toString width ++ " fields, header has " ++ toString expected
  | columnCount table => "field length does not match: " ++ table
  | badOffset expression => "offset " ++ expression ++ " is not an integer value"
  | badLimit expression => "limit " ++ expression ++ " is not an integer value"
  | badPercentage expression => "limit percentage " ++ expression ++ " is not a float value"
  | unknownZone text => "invalid value: timezone " ++ text
  | functionFailed reason => "invalid value: " ++ reason
  | endlessRecursion table => "table " ++ table ++ " recurses without end"

end QueryError

/-- Fails unless a call with `n` arguments is fine. -/
def checkArity (function : String) (arity : Arity) (n : Nat) : Except QueryError Unit :=
  if arity.accepts n then .ok () else .error (.argumentCount function arity)

end TableQuery
