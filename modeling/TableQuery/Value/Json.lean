import TableQuery.Value.Basic

/-!
# Values as JSON

Each value has a JSON text: truth values are booleans or null, moments are strings.
-/

namespace TableQuery

/-- How a character is written inside a JSON string: quotes, backslashes and control characters are
escaped, all else stands for itself. -/
def jsonChar (c : Char) : List Char :=
  match c with
  | '"' => ['\\', '"']
  | '\\' => ['\\', '\\']
  | '\x08' => ['\\', 'b']
  | '\x0c' => ['\\', 'f']
  | '\n' => ['\\', 'n']
  | '\r' => ['\\', 'r']
  | '\t' => ['\\', 't']
  | c =>
    if c.toNat < 32 then ['\\', 'u', '0', '0', Nat.digitChar (c.toNat / 16),
      Nat.digitChar (c.toNat % 16)]
    else [c]

/-- A text as a JSON string. -/
def jsonString (s : String) : String :=
  String.ofList ('"' :: s.toList.flatMap jsonChar ++ ['"'])

/-- The JSON text of a value. A float that is no number is null. -/
def Value.json : Value → String
  | null => "null"
  | integer i => integerText i
  | float f => if f.isFinite then Number.floatText f else "null"
  | nan _ => "null"
  | moment m => jsonString m.text
  | boolean b => booleanText b
  | truth t => t.toBool?.elim "null" booleanText
  | text s => jsonString s

end TableQuery
