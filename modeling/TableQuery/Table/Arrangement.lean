import TableQuery.Value.Compare

/-!
# Arranging rows

How rows are put into another order, taken out at given places, and put into groups. What the rows
are does not matter here: they are sorted by a test, taken by their indices, and grouped by keys.
-/

namespace TableQuery

open Calendar

/-! ## Sorting

The test need not be an order. On a strict weak order the sort is stable; on any test it gives a
permutation that does not depend on anything but the test and the list. -/

/-- Sorts a list by halves. An element of the right half goes in front of one of the left half only
if the test says so. -/
def stableSort {α : Type} (less : α → α → Bool) (xs : List α) : List α :=
  if 2 ≤ xs.length then
    let half := xs.length / 2
    (stableSort less (xs.take half)).merge (stableSort less (xs.drop half))
      (fun a b => !less b a)
  else
    xs
termination_by xs.length
decreasing_by
  all_goals
    simp only [List.length_take, List.length_drop]
    omega

/-! ## Extraction

Elements are taken out of an array at given indices, the last index first. The element at the end
moves into the place of the one that is taken, so what is left is out of order from there on; the
elements in front stay where they are. -/

variable {α : Type}

/-- Takes the element at an index out of an array, if there is one. The last element moves into its
place. -/
def swapRemove? (xs : Array α) (i : Nat) : Option (α × Array α) :=
  if h : i < xs.size then some (xs[i], (xs.swap i (xs.size - 1)).pop) else none

/-- Takes the elements at the indices out of an array, from the last index to the first. Gives them
in the order of the indices, and what is left. There is no result if an index is out of range when
its turn comes. -/
def takeOut? (xs : Array α) : List Nat → Option (List α × Array α)
  | [] => some ([], xs)
  | i :: indices => do
    let (taken, left) ← takeOut? xs indices
    let (x, left) ← swapRemove? left i
    return (x :: taken, left)

/-- The indices at which a list of flags is set. -/
def flaggedIndices (flags : List Bool) : List Nat :=
  (flags.zipIdx.filter Prod.fst).map Prod.snd

/-! ## Grouping

Rows whose keys are equivalent form a group. Equivalence is tested against the first key of each
group only. -/

/-- A group that is being formed: the key of its first member and the indices of all members. -/
structure KeyGroup where
  key : List Value
  members : List Nat

namespace KeyGroup

/-- Adds a member to the first group that its key fits, or makes it a group of its own. -/
def add (clock : Clock) (key : List Value) (i : Nat) : List KeyGroup → List KeyGroup
  | [] => [⟨key, [i]⟩]
  | g :: groups =>
    if Value.allEquivalent clock g.key key then { g with members := g.members ++ [i] } :: groups
    else g :: add clock key i groups

end KeyGroup

/-- The indices of the members of each group into which the keys fall, groups in the order of their
first members. -/
def groupIndices (clock : Clock) (keys : List (List Value)) : List (List Nat) :=
  (keys.zipIdx.foldl (fun groups (key, i) => KeyGroup.add clock key i groups) []).map
    KeyGroup.members

end TableQuery
