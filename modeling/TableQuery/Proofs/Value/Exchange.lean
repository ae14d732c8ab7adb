import TableQuery.Proofs.Value.Equivalence

/-!
# Comparisons from both sides

What one side finds less the other finds greater, in whatever type two values are compared and
whatever form their sort keys share. Keys that tie do not sort one before the other.
-/

namespace TableQuery

open Calendar

/-- The operator that says the same of the sides exchanged. -/
def CompareOp.exchange : CompareOp → CompareOp
  | equal => equal
  | notEqual => notEqual
  | less => greater
  | lessOrEqual => greaterOrEqual
  | greater => less
  | greaterOrEqual => lessOrEqual

theorem CompareOp.eval_exchange (op : CompareOp) (c : Comparison) :
    op.exchange.eval c.swap = op.eval c := by
  cases op <;> cases c <;> rfl

theorem Value.test_exchange (clock : Clock) (op : CompareOp) (a b : Value) :
    b.test clock op.exchange a = a.test clock op b := by
  rw [test, test, ← swap_compare, CompareOp.eval_exchange]

/-! ## Keys that tie -/

namespace Comparison

theorem ofOrder_eq_equal_iff {less greater equal : Bool} :
    ofOrder less greater equal = .equal ↔ CompareOp.equal.eval (ofOrder less greater equal) = .yes := by
  cases less <;> cases greater <;> cases equal <;> decide

theorem ofIntegers_eq_equal (i j : Int64) : (ofIntegers i j == .equal) = (i == j) := by
  rw [Bool.eq_iff_iff, beq_iff_eq, beq_iff_eq, ← Value.equal_ofIntegers_iff]
  exact ofOrder_eq_equal_iff

theorem ofFloats_eq_equal (f g : Float) : (ofFloats f g == .equal) = (f == g) := by
  rw [Bool.eq_iff_iff, beq_iff_eq, ← Value.equal_ofFloats_iff]
  exact ofOrder_eq_equal_iff

theorem ofTexts_eq_equal (s t : String) : (ofTexts s t == .equal) = (s == t) := by
  rw [Bool.eq_iff_iff, beq_iff_eq, beq_iff_eq, ← Value.equal_ofTexts_iff]
  exact ofOrder_eq_equal_iff

theorem ofMoments_eq_equal (m n : Moment) :
    (ofMoments m n == .equal) = (m.second == n.second && m.nano == n.nano) := by
  rw [Bool.eq_iff_iff, Bool.and_eq_true, beq_iff_eq, beq_iff_eq, beq_iff_eq,
    ← Value.equal_ofMoments_iff]
  unfold ofMoments
  cases m.before n <;> cases n.before m <;> decide

end Comparison

namespace SortKey

theorem map_both {α : Type} {f : α → α → Comparison} {same : α → α → Bool}
    (h : ∀ x y, (f x y == .equal) = same x y) (x y : Option α) :
    Value.both x y same = (Value.both x y f).map (· == .equal) := by
  cases x with
  | none => rfl
  | some x =>
    cases y with
    | none => rfl
    | some y => exact congrArg some (h x y).symm

/-- Keys tie if they compare as equal or are both NULL. -/
theorem ties_eq (a b : SortKey) :
    a.ties b = ((a.isNull && b.isNull) || a.compare b == .equal) := by
  unfold ties
  split
  · rfl
  · rename_i m n
    rw [compare_moment, Comparison.ofMoments_eq_equal]
    rfl
  · rename_i notNull notMoment
    have unlike : (a.isNull && b.isNull) = false := by
      rw [Bool.and_eq_false_imp]
      intro ha
      cases a <;> cases ha
      cases b with
      | null => exact absurd rfl (notNull rfl)
      | _ => rfl
    rw [unlike, Bool.false_or, compare_other notMoment,
      map_both Comparison.ofIntegers_eq_equal, map_both Comparison.ofFloats_eq_equal,
      map_both Comparison.ofTexts_eq_equal]
    cases Value.both a.integral? b.integral? Comparison.ofIntegers with
    | some _ => rfl
    | none =>
      cases Value.both a.seconds? b.seconds? Comparison.ofFloats with
      | some _ => rfl
      | none =>
        cases Value.both a.folded? b.folded? Comparison.ofTexts with
        | some _ => rfl
        | none => rfl

theorem ties_comm (a b : SortKey) : a.ties b = b.ties a := by
  rw [ties_eq, ties_eq, Bool.and_comm, ← swap_compare a b]
  cases a.compare b <;> rfl

/-- Keys that tie leave the order to the next key. -/
theorem less_of_ties {a b : SortKey} (h : a.ties b = true) : a.less b = .unknown := by
  rw [ties_eq, Bool.or_eq_true, Bool.and_eq_true, beq_iff_eq] at h
  obtain ⟨ha, -⟩ | equal := h
  · exact less_of_isNull (.inl ha)
  · rw [less, equal]

end SortKey

/-- Exchanging two values exchanges less and greater: in the comparison of the values, in the
operators, and in the order of their sort keys. Keys that tie have no order. -/
theorem comparisons_exchange (clock : Clock) (a b : Value) :
    b.compare clock a = (a.compare clock b).swap ∧
    (a.test clock .less b = b.test clock .greater a ∧
      a.test clock .lessOrEqual b = b.test clock .greaterOrEqual a ∧
      a.test clock .equal b = b.test clock .equal a ∧
      a.test clock .notEqual b = b.test clock .notEqual a) ∧
    let x := SortKey.ofValue clock a
    let y := SortKey.ofValue clock b
    (x.less y = .yes ↔ y.less x = .no) ∧ x.ties y = y.ties x ∧
      (x.ties y = true → x.less y = .unknown) := by
  refine ⟨(Value.swap_compare clock a b).symm, ⟨?_, ?_, ?_, ?_⟩, ?_, ?_, ?_⟩
  · exact (Value.test_exchange clock .less a b).symm
  · exact (Value.test_exchange clock .lessOrEqual a b).symm
  · exact (Value.test_exchange clock .equal a b).symm
  · exact (Value.test_exchange clock .notEqual a b).symm
  · exact SortKey.less_eq_no_iff.symm
  · exact SortKey.ties_comm _ _
  · exact SortKey.less_of_ties

/-- The number 5 and the text `+5.0` tie, so neither sorts before the other. -/
theorem comparisons_exchange_spelled :
    (SortKey.ofValue {} (.integer 5)).ties (.ofValue {} (.text "+5.0")) = true ∧
      (SortKey.ofValue {} (.integer 5)).less (.ofValue {} (.text "+5.0")) = .unknown := by
  obtain ⟨-, -, -, -, ties⟩ := comparisons_exchange {} (.integer 5) (.text "+5.0")
  have same : (SortKey.ofValue {} (.integer 5)).ties (.ofValue {} (.text "+5.0")) = true := by
    decide +kernel
  exact ⟨same, ties same⟩

end TableQuery
