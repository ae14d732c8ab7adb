import TableQuery.Error
import TableQuery.Number.Decimal
import TableQuery.Text.Character
import TableQuery.Language.Token

/-!
# Lexemes

The tokens of a text with their positions. Blanks and comments separate tokens and are dropped; the
last lexeme is always the end of the text.
-/

namespace TableQuery.Language

open Text Number

/-- A token and the number of characters before it. -/
structure Lexeme where
  token : Token
  position : Nat
  deriving Inhabited, DecidableEq

/-- Reads up to the closing quote, which a text doubles to hold it. Gives the text and the number of
characters read. -/
def readQuoted? (quote : Char) : List Char → Option (List Char × Nat)
  | [] => none
  | c :: cs =>
    if c == quote then
      match cs with
      | d :: ds =>
        if d == quote then (readQuoted? quote ds).map fun (s, n) => (quote :: s, n + 2)
        else some ([], 1)
      | [] => some ([], 1)
    else
      (readQuoted? quote cs).map fun (s, n) => (c :: s, n + 1)

/-- Counts the characters of a block comment up to its end, which it includes. -/
def commentLength? : List Char → Option Nat
  | [] => none
  | c :: cs =>
    match c, cs with
    | '*', '/' :: _ => some 2
    | _, _ => (commentLength? cs).map (· + 1)

/-- Whether a digit comes next. -/
def digitAhead (cs : List Char) : Bool :=
  cs.head?.any isDigit

/-- Counts the characters of a number after its first one, and says whether it has a fraction or an
exponent. A point belongs to it if it is the first and a digit follows; an exponent mark belongs to
it if a digit or a sign and a digit follow. -/
def numberLength (fractional : Bool) : List Char → Nat × Bool
  | [] => (0, fractional)
  | c :: cs =>
    if isDigit c then
      let (n, f) := numberLength fractional cs
      (n + 1, f)
    else if c == '.' && !fractional && digitAhead cs then
      let (n, f) := numberLength true cs
      (n + 1, f)
    else
      match cs with
      | d :: ds =>
        if (c == 'e' || c == 'E') && (isDigit d || ((d == '+' || d == '-') && digitAhead ds)) then
          let (n, f) := numberLength true ds
          (n + 2, f)
        else
          (0, fractional)
      | [] => (0, fractional)

/-- Reads a number that starts with `c`. Digits that fit no 64-bit integer are a float. -/
def readNumber (c : Char) (cs : List Char) : Except SyntaxFault (Token × Nat) :=
  let (n, fractional) := numberLength (c == '.') cs
  let text := c :: cs.take n
  let whole := if fractional then none else readInteger? text
  match whole, readFloat? text with
  | some i, _ => .ok (.integer i, n)
  | none, some f => .ok (.float f, n)
  | none, none => .error (.invalidNumber (String.ofList text))

/-- The longest word at the start. -/
def wordAhead (cs : List Char) : List Char :=
  cs.takeWhile isWordChar

/-- A word is a reserved word or a name. -/
def wordToken (word : String) : Token :=
  match Keyword.ofWord? word with
  | some k => .keyword k
  | none => .identifier word

/-- After a word a point is a separator and no start of a number. -/
def endsWord (c : Char) : Bool :=
  isWordChar c || c == '\x60' || c == '"'

/-- The symbol that a character and the one after it form, and whether it takes both. -/
def symbolAt? (c : Char) (next : Option Char) : Option (Symbol × Nat) :=
  match c, next with
  | '<', some '=' => some (.lessOrEqual, 1)
  | '<', some '>' => some (.notEqual, 1)
  | '>', some '=' => some (.greaterOrEqual, 1)
  | '!', some '=' => some (.notEqual, 1)
  | '|', some '|' => some (.concat, 1)
  | ':', some '=' => some (.assign, 1)
  | '*', _ => some (.asterisk, 0)
  | ',', _ => some (.comma, 0)
  | '(', _ => some (.leftParen, 0)
  | ')', _ => some (.rightParen, 0)
  | ';', _ => some (.semicolon, 0)
  | '+', _ => some (.plus, 0)
  | '-', _ => some (.minus, 0)
  | '/', _ => some (.slash, 0)
  | '%', _ => some (.percent, 0)
  | '=', _ => some (.equal, 0)
  | '<', _ => some (.less, 0)
  | '>', _ => some (.greater, 0)
  | '.', _ => some (.dot, 0)
  | _, _ => none

/-- Reads one token, or a stretch that is dropped, at the character `c` before `cs`; `last` is the
character in front of it. Gives the number of characters it takes after `c`. -/
def readToken (last : Option Char) (c : Char) (cs : List Char) :
    Except SyntaxFault (Option Token × Nat) :=
  if isBlank c then .ok (none, (cs.takeWhile isBlank).length)
  else if c == '-' && cs.head? == some '-' then .ok (none, (cs.takeWhile (· != '\n')).length)
  else if c == '/' && cs.head? == some '*' then
    match commentLength? cs.tail with
    | some n => .ok (none, n + 1)
    | none => .error .unterminatedComment
  else if c == '\x27' then
    match readQuoted? c cs with
    | some (s, n) => .ok (some (.text (String.ofList s)), n)
    | none => .error .unterminatedString
  else if c == '"' || c == '\x60' then
    match readQuoted? c cs with
    | some (s, n) => .ok (some (.quoted (String.ofList s)), n)
    | none => .error .unterminatedIdentifier
  else if c == '@' then
    let word := wordAhead cs
    if word.isEmpty then .error .missingVariableName
    else .ok (some (.variable (String.ofList word)), word.length)
  else if isDigit c || (c == '.' && digitAhead cs && !last.any endsWord) then
    (readNumber c cs).map fun (t, n) => (some t, n)
  else if isLetter c || c == '_' then
    let rest := wordAhead cs
    .ok (some (wordToken (String.ofList (c :: rest))), rest.length)
  else
    match symbolAt? c cs.head? with
    | some (s, n) => .ok (some (.symbol s), n)
    | none => .error (.unexpectedCharacter c)

/-- The lexemes of the characters that follow `position` others, `last` being the last of these. A
fault is reported where its token starts. -/
def lexemesFrom (position : Nat) (last : Option Char) (cs : List Char) :
    Except QueryError (List Lexeme) :=
  match cs with
  | [] => .ok [⟨.ending, position⟩]
  | c :: rest =>
    match readToken last c rest with
    | .error fault => .error (.badSyntax fault position)
    | .ok (token?, n) =>
      match lexemesFrom (position + n + 1) (c :: rest)[n]? (rest.drop n) with
      | .error e => .error e
      | .ok lexemes =>
        .ok (match token? with
          | some token => ⟨token, position⟩ :: lexemes
          | none => lexemes)
termination_by cs.length

/-- The lexemes of a text. -/
def lexemes (text : String) : Except QueryError (List Lexeme) :=
  lexemesFrom 0 none text.toList

end TableQuery.Language
