import TableQuery.Proofs.Evaluation.Rows
import TableQuery.Proofs.Join.PairedColumns
import TableQuery.Proofs.Value.RowComparison

/-!
# Predicates and what they abbreviate

`IN`, `ANY`, `ALL` and `BETWEEN` have evaluators of their own. A negation in front of one of them is
the same computation as the predicate of the complement, for all operands. `IN` and `BETWEEN` are the
comparisons joined by `OR` and `AND` that they stand for, as long as nothing shows how often and
whether at all an operand is evaluated.
-/

namespace TableQuery

open Calendar Eval

/-! ## Truth -/

theorem Truth.or_assoc (p q r : Truth) : (p.or q).or r = p.or (q.or r) := by
  cases p <;> cases q <;> cases r <;> rfl

theorem Truth.not_or (p q : Truth) : (p.or q).not = p.not.and q.not := by
  cases p <;> cases q <;> rfl

theorem Truth.not_any (ts : List Truth) : (Truth.any ts).not = Truth.all (ts.map Truth.not) := by
  induction ts with
  | nil => rfl
  | cons t ts ih =>
    show (t.or (Truth.any ts)).not = t.not.and (Truth.all (ts.map Truth.not))
    rw [Truth.not_or, ih]

/-- The complement of an operator is true exactly if the operator is false. -/
theorem Value.test_complement (clock : Clock) (op : CompareOp) (a b : Value) :
    a.test clock op.complement b = (a.test clock op b).not := by
  rw [← testRows_singleton, ← testRows_singleton, testRows_complement]

theorem testWith_complement (clock : Clock) (op : CompareOp) (left right : List Value) :
    testWith clock op.complement left right = (testWith clock op left right).not := by
  unfold testWith
  split
  · exact Value.test_complement clock op _ _
  · exact Value.testRows_complement clock op _ _

/-! ## Evaluators -/

/-- The complement of all rows is the negation of any row. -/
theorem evalQuantified_complement (clock : Clock) (op : CompareOp)
    (left : Eval (Option (List Value))) (rows : Nat → Eval (List (List Value))) :
    evalQuantified clock op.complement Truth.all left rows =
      Truth.not <$> evalQuantified clock op Truth.any left rows := by
  unfold evalQuantified
  rw [map_bind]
  refine bind_congr fun row? => ?_
  cases row? with
  | none => rfl
  | some row =>
    dsimp only
    rw [map_bind]
    refine bind_congr fun rows => ?_
    rw [map_pure, Truth.not_any, List.map_map]
    refine congrArg (fun ts => pure (Truth.all ts)) (List.map_congr_left fun r _ => ?_)
    exact testWith_complement clock op row r

theorem evalBetween_negated (clock : Clock) (left low high : RowOperand) :
    evalBetween clock true left low high =
      Truth.not <$> evalBetween clock false left low high := by
  unfold evalBetween
  rw [map_bind]
  refine bind_congr fun row? => ?_
  split
  · rfl
  · rfl
  · dsimp only
    rw [map_bind]
    refine bind_congr fun above => ?_
    split
    · rfl
    · rw [map_bind]
      rfl

section

variable {env : Env} {s : Scope}

theorem exec_evalLogic_or {x y : Eval Value} {p q : Truth} (hx : exec x s = (.ok (.truth p), s))
    (hy : exec y s = (.ok (.truth q), s)) :
    exec (evalLogic .or x y) s = (.ok (.truth (p.or q)), s) := by
  rw [evalLogic, exec_bind_ok hx]
  cases p with
  | yes => rfl
  | unknown | no =>
    show exec (y >>= _) s = _
    rw [exec_bind_ok hy]
    rfl

/-- A value between two others, if all of them are values. -/
theorem exec_evalBetween {clock : Clock} {left low high : RowOperand} {u l h : Value}
    (hleft : exec left.row s = (.ok (some [u]), s)) (hlow : exec low.value s = (.ok l, s))
    (hhigh : exec high.value s = (.ok h, s)) :
    exec (evalBetween clock false left low high) s =
      (.ok ((u.test clock .greaterOrEqual l).and (u.test clock .lessOrEqual h)), s) := by
  rw [evalBetween, exec_bind_ok hleft]
  split
  · rename_i none
    cases none
  · rename_i null
    cases null
    rfl
  · rename_i row _ row_eq
    cases row_eq
    dsimp only
    rw [bind_assoc, exec_bind_ok hlow, pure_bind]
    cases u.test clock .greaterOrEqual l with
    | no => rfl
    | unknown | yes =>
      show exec ((high.value >>= _) >>= _) s = _
      rw [bind_assoc, exec_bind_ok hhigh]
      rfl

/-- The rows of a list of values, each of which is a value. -/
theorem exec_listRows {vs : List Expr} {us : List Value}
    (h : List.Forall₂ (fun v u => exec (v.eval env) s = (.ok u, s)) vs us) :
    exec (listRows vs 1 env) s = (.ok (us.map ([·])), s) := by
  induction h with
  | nil => rfl
  | @cons v u vs us hv _ ih =>
    have item (isRow : Bool) :
        exec (evalListItem 1 (rowOperand v.text (v.eval env) (v.row? env)) isRow) s =
          (.ok [u], s) := by
      rw [evalListItem, decide_eq_false (Nat.lt_irrefl 1), Bool.and_false,
        if_neg Bool.false_ne_true]
      show exec (v.eval env >>= _) s = _
      rw [exec_bind_ok hv]
      rfl
    rw [listRows, exec_bind_ok (item _), exec_bind_ok ih]
    rfl

end

/-! ## Expressions -/

/-- The expression stands for one value: it is neither a row nor a subquery. -/
def Expr.isScalar : Expr → Bool
  | .rowValue _ | .subquery _ => false
  | _ => true

/-- Conditions with `OR` between them, as they are read: from the left. -/
def Expr.anyOf (first : Expr) (others : List Expr) : Expr :=
  others.foldl (.logic .or) first

/-- The innermost record has no computed column. -/
def Env.Uncomputed (env : Env) : Prop :=
  ∀ b ∈ env.bindings.head?, b.header.hasComputed = false

section

variable {env : Env} {s : Scope} {x : Expr} {u : Value}

theorem Env.Uncomputed.known? (plain : env.Uncomputed) (e : Expr) : env.known? e = none := by
  rw [Env.known?_eq]
  split
  · unfold Env.computed?
    split
    · rfl
    · rename_i b bs bindings
      rw [plain b (by rw [bindings]; rfl), if_neg Bool.false_ne_true]
  · rfl

theorem row?_of_isScalar (h : x.isScalar = true) : x.row? env = none := by
  cases x with
  | rowValue | subquery => cases h
  | _ => rw [Expr.row?] <;> intros <;> exact Expr.noConfusion ‹_›

/-- A scalar as the left side of a predicate is a row of one value. -/
theorem exec_row_of_isScalar (scalar : x.isScalar = true)
    (hx : exec (x.eval env) s = (.ok u, s)) :
    exec (rowOperand x.text (x.eval env) (x.row? env)).row s = (.ok (some [u]), s) := by
  rw [row?_of_isScalar scalar]
  show exec (x.eval env >>= _) s = _
  rw [exec_bind_ok hx]
  rfl

theorem eval_parens (plain : env.Uncomputed) (e : Expr) : (Expr.parens e).eval env = e.eval env := by
  rw [Expr.eval, plain.known?]

theorem eval_not (plain : env.Uncomputed) (e : Expr) :
    (Expr.not e).eval env = (fun v => .truth v.toTruth.not) <$> e.eval env := by
  rw [Expr.eval, plain.known?, map_eq_pure_bind]

/-- A predicate in parentheses behind `NOT`, if it gives a truth value. -/
theorem eval_not_parens (plain : env.Uncomputed) {e : Expr} {t : Eval Truth}
    (h : e.eval env = Value.truth <$> t) :
    (Expr.not (.parens e)).eval env = Value.truth <$> Truth.not <$> t := by
  rw [eval_not plain, eval_parens plain, h, Functor.map_map, Functor.map_map]
  rfl

/-- What `ANY` and `ALL` combine: the truth of `x op row` over the rows. -/
def evalAgainst (op : CompareOp) (combine : List Truth → Truth) (x values : Expr) (env : Env) :
    Eval Truth :=
  evalQuantified env.clock op combine (rowOperand x.text (x.eval env) (x.row? env)).row
    fun width => (values.rows? width env).getD (return [[← values.eval env]])

theorem eval_any (plain : env.Uncomputed) (op : CompareOp) (x values : Expr) :
    (Expr.any op x values).eval env = Value.truth <$> evalAgainst op Truth.any x values env := by
  rw [Expr.eval, plain.known?, map_eq_pure_bind]
  rfl

theorem eval_all (plain : env.Uncomputed) (op : CompareOp) (x values : Expr) :
    (Expr.all op x values).eval env = Value.truth <$> evalAgainst op Truth.all x values env := by
  rw [Expr.eval, plain.known?, map_eq_pure_bind]
  rfl

theorem eval_isIn (plain : env.Uncomputed) (negated : Bool) (x values : Expr) :
    (Expr.isIn negated x values).eval env =
      Value.truth <$> Truth.negateIf negated <$> evalAgainst .equal Truth.any x values env := by
  rw [Expr.eval, plain.known?, Functor.map_map, map_eq_pure_bind]
  rfl

theorem eval_between (plain : env.Uncomputed) (negated : Bool) (x low high : Expr) :
    (Expr.between negated x low high).eval env =
      Value.truth <$> evalBetween env.clock negated (rowOperand x.text (x.eval env) (x.row? env))
        (rowOperand low.text (low.eval env) (low.row? env))
        (rowOperand high.text (high.eval env) (high.row? env)) := by
  rw [Expr.eval, plain.known?, map_eq_pure_bind]

theorem exec_compare (plain : env.Uncomputed) (op : CompareOp) {y : Expr} {w : Value}
    (hx : exec (x.eval env) s = (.ok u, s)) (hy : exec (y.eval env) s = (.ok w, s)) :
    exec ((Expr.compare op x y).eval env) s = (.ok (.truth (u.test env.clock op w)), s) := by
  have single : ∀ items, x = .rowValue items → False := by
    rintro items rfl
    rw [Expr.eval, plain.known?] at hx
    cases hx
  rw [Expr.eval, plain.known?]
  · dsimp only
    rw [exec_bind_ok hx, exec_bind_ok hy]
    rfl
  · exact single

/-- Conditions joined by `OR`, all of which have a truth value. -/
theorem exec_anyOf (plain : env.Uncomputed) {first : Expr} {others : List Expr} {p : Truth}
    {ts : List Truth} (hfirst : exec (first.eval env) s = (.ok (.truth p), s))
    (h : List.Forall₂ (fun c t => exec (c.eval env) s = (.ok (.truth t), s)) others ts) :
    exec ((Expr.anyOf first others).eval env) s = (.ok (.truth (Truth.any (p :: ts))), s) := by
  induction h generalizing first p with
  | nil =>
    refine hfirst.trans ?_
    cases p <;> rfl
  | @cons c t others ts hc _ ih =>
    have joined : exec ((Expr.logic .or first c).eval env) s = (.ok (.truth (p.or t)), s) := by
      rw [Expr.eval, plain.known?]
      exact exec_evalLogic_or hfirst hc
    refine (ih joined).trans ?_
    show (Except.ok (Value.truth ((p.or t).or (Truth.any ts))), s) = _
    rw [Truth.or_assoc]
    rfl

/-- A scalar is in a list if it equals one of the values, as far as that is known. -/
theorem exec_evalRows_list (op : CompareOp) (combine : List Truth → Truth)
    (scalar : x.isScalar = true) (hx : exec (x.eval env) s = (.ok u, s)) {vs : List Expr}
    {us : List Value} (hvs : List.Forall₂ (fun v w => exec (v.eval env) s = (.ok w, s)) vs us) :
    exec (evalAgainst op combine x (.valueList vs) env) s =
      (.ok (combine (us.map (u.test env.clock op))), s) := by
  rw [evalAgainst, evalQuantified, exec_bind_ok (exec_row_of_isScalar scalar hx)]
  dsimp only
  rw [Expr.rows?]
  show exec (listRows vs 1 env >>= _) s = _
  rw [exec_bind_ok (exec_listRows hvs), List.map_map]
  rfl

end

/-- Where no column is computed, predicates agree with what they abbreviate. A negated predicate is
the same computation as the predicate of the complement: `NOT IN` and `<> ALL`, `NOT BETWEEN`, and
`ANY` and `ALL` of complementary operators, over rows of any width, lists and subqueries. For
scalars that have values, `IN` is the disjunction of equalities that stops at the first true one, and
`BETWEEN` the conjunction of two comparisons. -/
theorem predicates_agree_with_expansions {env : Env} (plain : env.Uncomputed) :
    (∀ (s : Scope) (x : Expr) (u : Value), x.isScalar = true → exec (x.eval env) s = (.ok u, s) →
      (∀ v vs w ws,
        List.Forall₂ (fun v w => exec (v.eval env) s = (.ok w, s)) (v :: vs) (w :: ws) →
        exec ((Expr.isIn false x (.valueList (v :: vs))).eval env) s =
            exec ((Expr.anyOf (.compare .equal x v) (vs.map (.compare .equal x))).eval env) s ∧
          exec ((Expr.isIn false x (.valueList (v :: vs))).eval env) s =
            (.ok (.truth (Truth.any ((w :: ws).map (u.test env.clock .equal)))), s)) ∧
      ∀ low high l h, exec (low.eval env) s = (.ok l, s) → exec (high.eval env) s = (.ok h, s) →
        exec ((Expr.between false x low high).eval env) s =
            exec ((Expr.logic .and (.compare .greaterOrEqual x low)
              (.compare .lessOrEqual x high)).eval env) s ∧
          exec ((Expr.between false x low high).eval env) s =
            (.ok (.truth ((u.test env.clock .greaterOrEqual l).and
              (u.test env.clock .lessOrEqual h))), s)) ∧
    (∀ x values : Expr,
      (Expr.isIn true x values).eval env = (Expr.all .notEqual x values).eval env ∧
      (Expr.isIn true x values).eval env = (Expr.not (.parens (.isIn false x values))).eval env) ∧
    (∀ x low high : Expr, (Expr.between true x low high).eval env =
      (Expr.not (.parens (.between false x low high))).eval env) ∧
    ∀ (op : CompareOp) (row rows : Expr),
      (Expr.not (.parens (.any op row rows))).eval env = (Expr.all op.complement row rows).eval env := by
  have complement (op : CompareOp) (x values : Expr) :
      evalAgainst op.complement Truth.all x values env =
        Truth.not <$> evalAgainst op Truth.any x values env :=
    evalQuantified_complement env.clock op _ _
  refine ⟨fun s x u scalar hx => ⟨fun v vs w ws hvs => ?_, fun low high l h hlow hhigh => ?_⟩,
    fun x values => ⟨?_, ?_⟩, fun x low high => ?_, fun op row rows => ?_⟩
  · have value : exec ((Expr.isIn false x (.valueList (v :: vs))).eval env) s =
        (.ok (.truth (Truth.any ((w :: ws).map (u.test env.clock .equal)))), s) := by
      rw [eval_isIn plain, exec_map, exec_map, exec_evalRows_list .equal Truth.any scalar hx hvs]
      rfl
    refine ⟨value.trans (Eq.symm ?_), value⟩
    obtain ⟨hv, hvs⟩ := List.forall₂_cons.mp hvs
    refine exec_anyOf plain (exec_compare plain .equal hx hv) ?_
    rw [List.forall₂_map_left_iff, List.forall₂_map_right_iff]
    exact hvs.imp fun v w hw => exec_compare plain .equal hx hw
  · have value : exec ((Expr.between false x low high).eval env) s =
        (.ok (.truth ((u.test env.clock .greaterOrEqual l).and
          (u.test env.clock .lessOrEqual h))), s) := by
      rw [eval_between plain, exec_map,
        exec_evalBetween (exec_row_of_isScalar scalar hx) hlow hhigh]
      rfl
    refine ⟨value.trans (Eq.symm ?_), value⟩
    rw [Expr.eval, plain.known?]
    exact exec_evalLogic_and (exec_compare plain .greaterOrEqual hx hlow)
      (exec_compare plain .lessOrEqual hx hhigh)
  · rw [eval_isIn plain, eval_all plain]
    exact congrArg (Value.truth <$> ·) (complement .equal x values).symm
  · rw [eval_isIn plain, eval_not_parens plain (eval_isIn plain false x values)]
    exact congrArg (Value.truth <$> Truth.not <$> ·) (id_map _).symm
  · rw [eval_between plain, eval_not_parens plain (eval_between plain false x low high),
      evalBetween_negated]
  · rw [eval_not_parens plain (eval_any plain op row rows), eval_all plain, complement]

/-- In a row with the number 1 and a NULL it is unknown whether the number is 2 or the NULL, and
whether it is between the NULL and 2. -/
theorem predicates_agree_with_expansions_null :
    let env : Env := { bindings :=
      [{ header := .ofNames "t" ["a", "b"], record := .ofValues [.integer 1, .null] }] }
    let a : Expr := .column none "a"
    let b : Expr := .column none "b"
    let two : Expr := .literal (.integer 2)
    env.Uncomputed ∧ a.isScalar = true ∧ exec (a.eval env) {} = (.ok (.integer 1), {}) ∧
      exec (b.eval env) {} = (.ok .null, {}) ∧ exec (two.eval env) {} = (.ok (.integer 2), {}) ∧
      exec ((Expr.anyOf (.compare .equal a two) [.compare .equal a b]).eval env) {} =
        (.ok (.truth .unknown), {}) ∧
      exec ((Expr.between false a b two).eval env) {} = (.ok (.truth .unknown), {}) := by
  intro env a b two
  have plain : env.Uncomputed := by
    rintro _ ⟨⟩
    rfl
  have ha : exec (a.eval env) {} = (.ok (.integer 1), {}) := rfl
  have hb : exec (b.eval env) {} = (.ok .null, {}) := rfl
  have htwo : exec (two.eval env) {} = (.ok (.integer 2), {}) := rfl
  obtain ⟨scalars, -⟩ := predicates_agree_with_expansions plain
  obtain ⟨isIn, between⟩ := scalars {} a (.integer 1) rfl ha
  obtain ⟨disjunction, value⟩ := isIn two [b] (.integer 2) [.null] (.cons htwo (.cons hb .nil))
  refine ⟨plain, rfl, ha, hb, htwo, disjunction.symm.trans (value.trans ?_),
    (between b two .null (.integer 2) hb htwo).2.trans ?_⟩
  · rfl
  · rfl

end TableQuery
