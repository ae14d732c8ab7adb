import TableQuery.Value.Compare

/-!
# Sort keys

A value is put into a normal form once and then compared many times: the first of integer, float,
moment, boolean and text that it has a counterpart in, together with its folded text if it is a
number. Lists of such keys are ordered key by key.
-/

namespace TableQuery

open Calendar

/-- The direction of a sort key. -/
inductive Direction where
  | asc
  | desc
  deriving DecidableEq, Repr

/-- Where NULLs go. -/
inductive NullPlacement where
  | first
  | last
  deriving DecidableEq, Repr

def Direction.text : Direction → String
  | asc => "ASC"
  | desc => "DESC"

def NullPlacement.text : NullPlacement → String
  | first => "NULLS FIRST"
  | last => "NULLS LAST"

/-- NULLs count as lower than everything else unless said otherwise. -/
def Direction.nullPlacement : Direction → NullPlacement
  | asc => .first
  | desc => .last

/-- The normal form of a value for sorting. -/
inductive SortKey where
  | null
  | integer (i : Int64) (folded : String)
  | float (f : Float) (folded : String)
  | moment (m : Moment)
  | boolean (b : Bool)
  | text (folded : String)

namespace SortKey

/-- The normal form of a value. -/
def ofValue (clock : Clock) (v : Value) : SortKey :=
  match v.toInteger?, v.toFloat?, v.toMoment? clock, v.toBoolean?, v with
  | some i, _, _, _, _ => integer i (v.toText?.elim (Value.integerText i) Value.fold)
  | none, some f, _, _, _ => float f (v.toText?.elim (Number.floatText f) Value.fold)
  | none, none, some m, _, _ => moment m
  | none, none, none, some b, _ => boolean b
  | none, none, none, none, .text s => text (Value.fold s)
  | none, none, none, none, _ => null

def isNull : SortKey → Bool
  | null => true
  | _ => false

/-- The key as an integer if it is one or a boolean. -/
def integral? : SortKey → Option Int64
  | integer i _ => some i
  | boolean b => some (if b then 1 else 0)
  | _ => none

/-- The key as a number if it is one. -/
def number? : SortKey → Option Float
  | integer i _ => some (Float.ofInt i.toInt)
  | float f _ => some f
  | _ => none

/-- The key as a number of seconds if it is a number or a moment. -/
def seconds? : SortKey → Option Float
  | moment m => some m.epoch
  | k => k.number?

/-- The folded text of a number or a text. -/
def folded? : SortKey → Option String
  | integer _ s => some s
  | float _ s => some s
  | text s => some s
  | _ => none

/-- How two keys compare: as integers if both are integers or booleans, else as numbers, as moments,
as numbers of seconds, as texts. Keys without a common form do not compare, NULL with nothing. -/
def compare (a b : SortKey) : Comparison :=
  match a, b with
  | moment m, moment n => .ofMoments m n
  | _, _ =>
    match Value.both a.integral? b.integral? Comparison.ofIntegers with
    | some c => c
    | none =>
      match Value.both a.seconds? b.seconds? Comparison.ofFloats with
      | some c => c
      | none => (Value.both a.folded? b.folded? Comparison.ofTexts).getD .incommensurable

/-- Strict order. UNKNOWN if neither key sorts before the other, so that the next key decides. -/
def less (a b : SortKey) : Truth :=
  match a.compare b with
  | .less => .yes
  | .greater => .no
  | _ => .unknown

/-- Whether the keys tie: they are the same in the form in which they compare. NULL ties with NULL. -/
def ties (a b : SortKey) : Bool :=
  match a, b with
  | null, null => true
  | moment m, moment n => m.second == n.second && m.nano == n.nano
  | _, _ =>
    match Value.both a.integral? b.integral? (· == ·) with
    | some same => same
    | none =>
      match Value.both a.seconds? b.seconds? (· == ·) with
      | some same => same
      | none => (Value.both a.folded? b.folded? (· == ·)).getD false

end SortKey

/-- The direction of a key and the place of its NULLs. -/
structure KeyOrder where
  direction : Direction := .asc
  nulls : NullPlacement := direction.nullPlacement

/-- Whether the tuple `as` sorts strictly before `bs`. A key that is equal, incommensurable or NULL
on both sides leaves the decision to the next one. -/
def SortKey.tupleLess : List KeyOrder → List SortKey → List SortKey → Bool
  | orders, a :: as, b :: bs =>
    let order := orders.headD {}
    match a.less b with
    | .yes => order.direction == .asc
    | .no => order.direction == .desc
    | .unknown =>
      match a.isNull, b.isNull with
      | true, false => order.nulls == .first
      | false, true => order.nulls == .last
      | _, _ => SortKey.tupleLess orders.tail as bs
  | _, _, _ => false

/-- Whether the tuples tie in every key. -/
def SortKey.tupleTies : List SortKey → List SortKey → Bool
  | [], [] => true
  | a :: as, b :: bs => a.ties b && tupleTies as bs
  | _, _ => false

/-- The key tuple of a list of values. -/
def SortKey.ofValues (clock : Clock) (vs : List Value) : List SortKey :=
  vs.map (SortKey.ofValue clock)

end TableQuery
