import TableQuery.Text.Case

/-!
# Three-valued truth

The truth values FALSE < UNKNOWN < TRUE. Conjunction is the minimum of its operands and disjunction
the maximum, so a list of truth values has a conjunction and a disjunction whatever its order.
-/

namespace TableQuery

/-- A truth value; UNKNOWN is what a comparison with NULL yields. -/
inductive Truth where
  | no
  | unknown
  | yes
  deriving DecidableEq, Repr, Inhabited

namespace Truth

/-- The certain truth value of a condition. -/
def ofBool : Bool → Truth
  | true => yes
  | false => no

/-- The truth value as a boolean, if it is definite. -/
def toBool? : Truth → Option Bool
  | yes => some true
  | no => some false
  | unknown => none

/-- Only TRUE lets a row through a condition. -/
def holds : Truth → Bool
  | yes => true
  | _ => false

/-- Conjunction: the minimum. -/
def and : Truth → Truth → Truth
  | no, _ => no
  | _, no => no
  | yes, yes => yes
  | _, _ => unknown

/-- Disjunction: the maximum. -/
def or : Truth → Truth → Truth
  | yes, _ => yes
  | _, yes => yes
  | no, no => no
  | _, _ => unknown

/-- Negation leaves UNKNOWN as it is. -/
def not : Truth → Truth
  | yes => no
  | no => yes
  | unknown => unknown

/-- The negation if `negated` is set. -/
def negateIf (negated : Bool) (t : Truth) : Truth :=
  if negated then t.not else t

/-- Conjunction of a list, TRUE for the empty one. -/
def all (ts : List Truth) : Truth :=
  ts.foldr and yes

/-- Disjunction of a list, FALSE for the empty one. -/
def any (ts : List Truth) : Truth :=
  ts.foldr or no

/-- The keyword that denotes the truth value. -/
def name : Truth → String
  | yes => "TRUE"
  | no => "FALSE"
  | unknown => "UNKNOWN"

/-- The truth value that a keyword in any case denotes. -/
def parse? (s : String) : Option Truth :=
  match Text.upper s with
  | "TRUE" => some yes
  | "FALSE" => some no
  | "UNKNOWN" => some unknown
  | _ => none

end Truth

end TableQuery
