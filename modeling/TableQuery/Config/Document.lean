/-!
# Documents

The tree of a configuration file: the values of JSON. Settings are read from it field by field,
either by name or, from a list, by place.
-/

namespace TableQuery

/-- A value of JSON. Numbers that are not written as integers are all alike to a configuration. -/
inductive Document where
  | null
  | boolean (b : Bool)
  | integer (i : Int)
  | fraction
  | text (s : String)
  | list (items : List Document)
  | object (fields : List (String × Document))
  deriving Inhabited

namespace Document

/-- The text that a value is. -/
def text? : Document → Option String
  | text s => some s
  | _ => none

/-- The number of things that a value is; it must fit into 64 bits. -/
def count? : Document → Option Nat
  | integer i => if 0 ≤ i && i.toNat < UInt64.size then some i.toNat else none
  | _ => none

/-- The texts that a list holds. -/
def texts? : Document → Option (List String)
  | list items => items.mapM text?
  | _ => none

/-- The value of a field: by its name in an object, by its place in a list. -/
def field? (name : String) (place : Nat) : Document → Option Document
  | object fields => fields.lookup name
  | list items => items[place]?
  | _ => none

/-- Whether a value may hold `count` fields. -/
def holdsFields (count : Nat) : Document → Bool
  | object _ => true
  | list items => items.length ≤ count
  | _ => false

/-- The setting that a field holds, or a default; `none` if the field does not fit. -/
def setting? {α : Type} (d : Document) (name : String) (place : Nat) (read : Document → Option α)
    (default : α) : Option α :=
  match d.field? name place with
  | some v => read v
  | none => some default

/-- The name of a choice and what it comes with: a text alone, or an object of one field. -/
def choice? : Document → Option (String × Option Document)
  | text name => some (name, none)
  | object [(name, d)] => some (name, some d)
  | _ => none

/-- Whether nothing comes with a choice. -/
def isEmptyChoice : Option Document → Bool
  | none | some null => true
  | _ => false

end Document

end TableQuery
