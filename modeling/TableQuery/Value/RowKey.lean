import TableQuery.Value.Compare

/-!
# Row keys

A canonical text of a value, equal for values that count as duplicates of each other. The key of a
row joins the keys of its values.
-/

namespace TableQuery

open Calendar Number

namespace Value

/-- The key of a moment: its seconds since 1970 as an integer, or as a float if it has a fraction.
-/
def momentKey (m : Moment) : String :=
  if 0 < m.nano then "[F]" ++ floatText m.epoch else "[I]" ++ toString m.second

/-- The canonical text of a value for finding duplicates. -/
def key (clock : Clock) (v : Value) : String :=
  if v.isNull then "[N]"
  else
    match v.toIntegerStrictly? with
    | some i => "[I]" ++ integerText i
    | none =>
      match v.toFloat? with
      | some f => "[F]" ++ floatText f
      | none =>
        match v.toMoment? clock with
        | some m => momentKey m
        | none =>
          match v.toBoolean?, v with
          | some true, _ => "[I]1[B]T"
          | some false, _ => "[I]0[B]F"
          | none, text s => "[S]" ++ fold s
          | none, _ => "[N]"

end Value

/-- The canonical text of a row. -/
def rowKey (clock : Clock) (vs : List Value) : String :=
  ":".intercalate (vs.map (Value.key clock))

end TableQuery
