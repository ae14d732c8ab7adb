import TableQuery.Number.Shortest
import TableQuery.Text.Case

/-!
# Tokens

What a query text is made of. Each token has a text, which error messages show.
-/

namespace TableQuery.Language

/-- The reserved words. -/
inductive Keyword where
  | select | from | where | group | by | having | order | limit | offset
  | join | inner | left | right | full | outer | cross | natural | on | using
  | as | and | or | not | like | in | between | is
  | null | true | false | unknown
  | asc | desc | distinct | all | any | some | exists
  | union | except | intersect | with | recursive
  | case | when | then | else | end
  | dual | stdin | values
  deriving DecidableEq, Repr

namespace Keyword

/-- The word in upper case. -/
def text : Keyword → String
  | select => "SELECT"
  | .from => "FROM"
  | .where => "WHERE"
  | group => "GROUP"
  | .by => "BY"
  | having => "HAVING"
  | order => "ORDER"
  | limit => "LIMIT"
  | offset => "OFFSET"
  | join => "JOIN"
  | inner => "INNER"
  | left => "LEFT"
  | right => "RIGHT"
  | full => "FULL"
  | outer => "OUTER"
  | cross => "CROSS"
  | natural => "NATURAL"
  | on => "ON"
  | .using => "USING"
  | .as => "AS"
  | and => "AND"
  | or => "OR"
  | not => "NOT"
  | like => "LIKE"
  | .in => "IN"
  | between => "BETWEEN"
  | .is => "IS"
  | null => "NULL"
  | true => "TRUE"
  | false => "FALSE"
  | unknown => "UNKNOWN"
  | asc => "ASC"
  | desc => "DESC"
  | distinct => "DISTINCT"
  | all => "ALL"
  | any => "ANY"
  | some => "SOME"
  | .exists => "EXISTS"
  | union => "UNION"
  | except => "EXCEPT"
  | intersect => "INTERSECT"
  | .with => "WITH"
  | recursive => "RECURSIVE"
  | case => "CASE"
  | when => "WHEN"
  | .then => "THEN"
  | .else => "ELSE"
  | .end => "END"
  | dual => "DUAL"
  | stdin => "STDIN"
  | values => "VALUES"

/-- All reserved words. -/
def every : List Keyword := [
  select, .from, .where, group, .by, having, order, limit, offset, join, inner, left, right, full,
  outer, cross, natural, on, .using, .as, and, or, not, like, .in, between, .is, null, true, false,
  unknown, asc, desc, distinct, all, any, some, .exists, union, except, intersect, .with, recursive,
  case, when, .then, .else, .end, dual, stdin, values]

/-- The reserved word that a word in any case is. -/
def ofWord? (word : String) : Option Keyword :=
  let upper := Text.upper word
  every.find? fun k => k.text == upper

end Keyword

/-- Operators and punctuation. -/
inductive Symbol where
  | equal | notEqual | less | lessOrEqual | greater | greaterOrEqual
  | plus | minus | slash | percent | concat | assign
  | asterisk | comma | dot | leftParen | rightParen | semicolon
  deriving DecidableEq, Repr

def Symbol.text : Symbol → String
  | equal => "="
  | notEqual => "<>"
  | less => "<"
  | lessOrEqual => "<="
  | greater => ">"
  | greaterOrEqual => ">="
  | plus => "+"
  | minus => "-"
  | slash => "/"
  | percent => "%"
  | concat => "||"
  | assign => ":="
  | asterisk => "*"
  | comma => ","
  | dot => "."
  | leftParen => "("
  | rightParen => ")"
  | semicolon => ";"

/-- A token of a query text. Names in quotes are never reserved words. -/
inductive Token where
  | keyword (k : Keyword)
  | identifier (name : String)
  | quoted (name : String)
  | variable (name : String)
  | integer (i : Int64)
  | float (f : Float)
  | text (s : String)
  | symbol (s : Symbol)
  /-- The end of the text. -/
  | ending
  deriving Inhabited, DecidableEq

/-- The token in error messages. -/
def Token.display : Token → String
  | keyword k => k.text
  | identifier name => name
  | quoted name => "\x60" ++ name ++ "\x60"
  | .variable name => "@" ++ name
  | integer i => toString i.toInt
  | float f => Number.floatText f
  | text s => "'" ++ s ++ "'"
  | symbol s => s.text
  | ending => "EOF"

end TableQuery.Language
