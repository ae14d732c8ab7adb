import TableQuery.Proofs.Value.Exchange

/-!
# Comparison of rows

Rows are equal as far as all their pairs are, so a pair that differs decides even behind an
incommensurable one. The order of rows is that of the first pair that is not equal, which may leave
it open.
-/

namespace TableQuery

open Calendar

/-- The operator that says the opposite. -/
def CompareOp.complement : CompareOp → CompareOp
  | equal => notEqual
  | notEqual => equal
  | less => greaterOrEqual
  | lessOrEqual => greater
  | greater => lessOrEqual
  | greaterOrEqual => less

theorem CompareOp.isOrder_complement (op : CompareOp) : op.complement.isOrder = op.isOrder := by
  cases op <;> rfl

theorem CompareOp.isOrder_exchange (op : CompareOp) : op.exchange.isOrder = op.isOrder := by
  cases op <;> rfl

theorem Truth.not_not (t : Truth) : t.not.not = t := by
  cases t <;> rfl

namespace Value

variable {clock : Clock} {op : CompareOp} {as bs : List Value}

/-- How the first pair of the rows compares that is not equal. -/
def firstUnequal? (clock : Clock) (as bs : List Value) : Option Comparison :=
  (List.zipWith (compare clock) as bs).find? (· != .equal)

/-- The truth of an order operator between rows, given how the first pair that is not equal compares.
Rows without such a pair are equal. -/
def lexicographic (op : CompareOp) : Option Comparison → Truth
  | none => .ofBool (op == .lessOrEqual || op == .greaterOrEqual)
  | some .less => .ofBool (op == .less || op == .lessOrEqual)
  | some .greater => .ofBool (op == .greater || op == .greaterOrEqual)
  | some _ => .unknown

/-! ## Equality -/

theorem testRowEquality_notEqual (unknown : Bool) :
    testRowEquality clock .notEqual unknown as bs =
      (testRowEquality clock .equal unknown as bs).not := by
  induction as generalizing bs unknown with
  | nil => cases unknown <;> rfl
  | cons a as ih =>
    cases bs with
    | nil => cases unknown <;> rfl
    | cons b bs =>
      unfold testRowEquality
      cases a.compare clock b with
      | incommensurable => exact ih true
      | equal | sameBoolean => exact ih unknown
      | less | greater | otherBoolean => rfl

/-- Rows are equal if all their pairs are. Whether an incommensurable pair came before is remembered
as a conjunct of its own. -/
theorem testRowEquality_equal (unknown : Bool) :
    testRowEquality clock .equal unknown as bs =
      (if unknown then Truth.unknown else .yes).and
        (Truth.all (List.zipWith (test clock .equal) as bs)) := by
  induction as generalizing bs unknown with
  | nil => cases unknown <;> rfl
  | cons a as ih =>
    cases bs with
    | nil => cases unknown <;> rfl
    | cons b bs =>
      have pairs : Truth.all (List.zipWith (test clock .equal) (a :: as) (b :: bs)) =
          (a.test clock .equal b).and (Truth.all (List.zipWith (test clock .equal) as bs)) := rfl
      rw [pairs, testRowEquality, test]
      cases a.compare clock b with
      | incommensurable =>
        refine (ih true).trans ?_
        cases unknown <;> cases Truth.all (List.zipWith (test clock .equal) as bs) <;> rfl
      | equal | sameBoolean =>
        refine (ih unknown).trans ?_
        cases unknown <;> cases Truth.all (List.zipWith (test clock .equal) as bs) <;> rfl
      | less | greater | otherBoolean =>
        cases unknown <;> cases Truth.all (List.zipWith (test clock .equal) as bs) <;> rfl

/-! ## Order -/

theorem lexicographic_none (order : op.isOrder = true) :
    lexicographic op none = .ofBool op.acceptsEqual := by
  cases op with
  | equal | notEqual => cases order
  | less | lessOrEqual | greater | greaterOrEqual => rfl

theorem lexicographic_less (order : op.isOrder = true) :
    lexicographic op (some .less) = .ofBool op.acceptsLess := by
  cases op with
  | equal | notEqual => cases order
  | less | lessOrEqual | greater | greaterOrEqual => rfl

theorem lexicographic_greater (order : op.isOrder = true) :
    lexicographic op (some .greater) = .ofBool op.acceptsGreater := by
  cases op with
  | equal | notEqual => cases order
  | less | lessOrEqual | greater | greaterOrEqual => rfl

theorem lexicographic_complement (order : op.isOrder = true) (first : Option Comparison) :
    lexicographic op.complement first = (lexicographic op first).not := by
  cases op with
  | equal | notEqual => cases order
  | less | lessOrEqual | greater | greaterOrEqual =>
    cases first with
    | none => rfl
    | some c => cases c <;> rfl

theorem lexicographic_exchange (op : CompareOp) (first : Option Comparison) :
    lexicographic op.exchange (first.map Comparison.swap) = lexicographic op first := by
  cases first with
  | none => cases op <;> rfl
  | some c => cases c <;> cases op <;> rfl

/-- The order of rows is that of the first pair that is not equal. -/
theorem testRowOrder_eq (order : op.isOrder = true) :
    testRowOrder clock op as bs = lexicographic op (firstUnequal? clock as bs) := by
  induction as generalizing bs with
  | nil => exact (lexicographic_none order).symm
  | cons a as ih =>
    cases bs with
    | nil => exact (lexicographic_none order).symm
    | cons b bs =>
      rw [testRowOrder, firstUnequal?, List.zipWith_cons_cons, List.find?_cons]
      cases a.compare clock b with
      | equal => exact ih
      | less => exact (lexicographic_less order).symm
      | greater => exact (lexicographic_greater order).symm
      | sameBoolean | otherBoolean | incommensurable => rfl

theorem testRowOrder_complement (order : op.isOrder = true) :
    testRowOrder clock op.complement as bs = (testRowOrder clock op as bs).not := by
  rw [testRowOrder_eq order, testRowOrder_eq (op.isOrder_complement.trans order),
    lexicographic_complement order]

/-- Exchanging the rows exchanges less and greater in the first pair that is not equal. -/
theorem firstUnequal?_swap :
    firstUnequal? clock bs as = (firstUnequal? clock as bs).map Comparison.swap := by
  induction as generalizing bs with
  | nil => cases bs <;> rfl
  | cons a as ih =>
    cases bs with
    | nil => rfl
    | cons b bs =>
      simp only [firstUnequal?, List.zipWith_cons_cons, List.find?_cons, ← swap_compare clock a b]
      cases a.compare clock b with
      | equal => exact ih
      | less | greater | sameBoolean | otherBoolean | incommensurable => rfl

/-! ## The operators -/

theorem testRows_of_isOrder (width : as.length = bs.length) (order : op.isOrder = true) :
    testRows clock op as bs = lexicographic op (firstUnequal? clock as bs) := by
  rw [testRows, if_neg (by simp [width]), if_pos order, testRowOrder_eq order]

/-- The complement of an operator is true of rows exactly if the operator is false of them. -/
theorem testRows_complement (clock : Clock) (op : CompareOp) (as bs : List Value) :
    testRows clock op.complement as bs = (testRows clock op as bs).not := by
  unfold testRows
  rw [op.isOrder_complement]
  split
  · rfl
  · cases op with
    | equal => exact testRowEquality_notEqual false
    | notEqual =>
      rw [if_neg (by decide), if_neg (by decide), testRowEquality_notEqual]
      exact (Truth.not_not _).symm
    | less | lessOrEqual | greater | greaterOrEqual => exact testRowOrder_complement rfl

/-- What a row finds less the other finds greater. -/
theorem testRows_exchange (width : as.length = bs.length) (order : op.isOrder = true) :
    testRows clock op.exchange bs as = testRows clock op as bs := by
  rw [testRows_of_isOrder width.symm (op.isOrder_exchange.trans order),
    testRows_of_isOrder width order, firstUnequal?_swap, lexicographic_exchange]

/-- Rows of a single value compare as their values. -/
theorem testRows_singleton (clock : Clock) (op : CompareOp) (a b : Value) :
    testRows clock op [a] [b] = a.test clock op b := by
  rw [testRows, test]
  cases op <;> simp only [testRowOrder, testRowEquality] <;> cases a.compare clock b <;> rfl

/-- Rows of one width are equal as far as all their pairs are, are ordered by the first pair that is
not equal, and obey the laws of the operators on single values. -/
theorem testRows_laws (clock : Clock) {as bs : List Value} (width : as.length = bs.length) :
    (testRows clock .equal as bs = Truth.all (List.zipWith (test clock .equal) as bs) ∧
      testRows clock .notEqual as bs = (testRows clock .equal as bs).not) ∧
    (∀ op, op.isOrder = true →
      testRows clock op as bs = lexicographic op (firstUnequal? clock as bs)) ∧
    (testRows clock .lessOrEqual as bs = (testRows clock .greater as bs).not ∧
      testRows clock .greaterOrEqual as bs = (testRows clock .less as bs).not ∧
      testRows clock .less as bs = testRows clock .greater bs as) ∧
    ∀ a b, as = [a] → bs = [b] → ∀ op, testRows clock op as bs = a.test clock op b := by
  refine ⟨⟨?_, ?_⟩, fun op order => testRows_of_isOrder width order, ⟨?_, ?_, ?_⟩, ?_⟩
  · rw [testRows, if_neg (by simp [width]), if_neg (by decide), testRowEquality_equal]
    cases Truth.all (List.zipWith (test clock .equal) as bs) <;> rfl
  · exact testRows_complement clock .equal as bs
  · exact testRows_complement clock .greater as bs
  · exact testRows_complement clock .less as bs
  · exact (testRows_exchange width rfl).symm
  · rintro a b rfl rfl op
    exact testRows_singleton clock op a b

/-- A pair that differs makes rows unequal behind a NULL, but their order stops at the NULL. -/
theorem testRows_laws_null :
    [null, integer 2].length = [integer 1, integer 5].length ∧
      testRows {} .equal [null, integer 2] [integer 1, integer 5] = .no ∧
      testRows {} .less [null, integer 2] [integer 1, integer 5] = .unknown := by
  obtain ⟨⟨equality, -⟩, order, -⟩ :=
    testRows_laws {} (show [null, integer 2].length = [integer 1, integer 5].length from rfl)
  exact ⟨rfl, equality.trans (by decide), (order .less rfl).trans (by decide)⟩

end Value

end TableQuery
