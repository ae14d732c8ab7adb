import TableQuery.Proofs.Syntax.Steady

/-!
# The grammar in front of other ends

What an expression, a source or a query takes in front of the end of a text, it takes in front of a
clause that cuts rows. One rule of the grammar after the other is steady, if those below it are.
-/

namespace TableQuery.Language

open Language.Grammar

/-- The parsers of the one grammar read in front of a cut as those of the other do in front of every
other cut. A query has clauses of its own that start like cuts; in parentheses none comes next. -/
structure Grammar.Steadies (g g' : Grammar) : Prop where
  expression : Steady 0 0 g.expression g'.expression
  query : Steady 0 1 g.query g'.query
  source : Steady 0 0 g.source g'.source

section

variable {g g' : Grammar} {m n : Nat}

theorem Grammar.Steadies.consuming (h : g.Steadies g') : g.Consuming :=
  ⟨h.expression.consumes, h.query.consumes, h.source.consumes⟩

theorem Grammar.Steadies.consuming' (h : g.Steadies g') : g'.Consuming :=
  ⟨h.expression.consumes', h.query.consumes', h.source.consumes'⟩

theorem Token.not_direction_of_cuts {t : Token} (h : t.cuts = true) : direction? t = none :=
  Token.forall_cuts (P := fun t => direction? t = none) rfl rfl rfl rfl rfl t h

theorem Grammar.Steadies.expressions (h : g.Steadies g') : Steady m n g.expressions g'.expressions :=
  h.expression.separatedBy rfl

theorem steady_columnNames : Steady m n Parser.columnNames Parser.columnNames :=
  ((steady_expectName _).separatedBy rfl).inParens

theorem steady_takeNulls : Steady m n takeNulls? takeNulls? := by
  refine (steady_takeWord _).bind fun _ =>
    .ite ((steady_takeWord _).bind fun _ => .ite (.pure _) ?_) (.pure _)
  exact (steady_takeWord _).bind fun _ => .ite (.pure _) (steady_unexpected _)

theorem Grammar.Steadies.order (h : g.Steadies g') : Steady m n g.order g'.order := by
  have item : Steady 0 0 g.orderItem g'.orderItem :=
    h.expression.bind fun _ => (steady_takeOperator fun _ => Token.not_direction_of_cuts).bind fun _ =>
      steady_takeNulls.bind fun _ => .pure _
  exact (steady_takeKeyword rfl).bind fun _ =>
    .ite ((steady_expectKeyword rfl).bind fun _ => item.separatedBy rfl) (.pure _)

theorem steady_columnFrom (first : String) : Steady m n (columnFrom first) (columnFrom first) := by
  refine (steady_takeSymbol rfl).bind fun _ =>
    .ite ((steady_takeSymbol rfl).bind fun _ => ?_) (.pure _)
  exact .ite (.pure _) ((steady_expectName _).bind fun _ => .pure _)

theorem settles_branches (h : Consumes g.expression) : Settles g.branches := by
  refine Settles.of_step (f := fun k (_ : Unit) => g.branches k)
    (fun k _ => by cases k <;> rfl) (fun k k' _ ls ih => ?_) ()
  refine bind_congr_run fun took rest run => ?_
  obtain ⟨there, rfl⟩ := takeIf_eq_ok.1 run
  cases took with
  | false => rfl
  | true =>
    have taken : ls.tail.length < ls.length := length_of_ahead rfl there.symm
    refine bind_congr_run fun _ mid run => bind_congr_run fun _ mid' run' =>
      bind_congr_run fun _ rest run'' => bind_congr_left (ih () rest ?_)
    have first := h.length_le run
    have word := (consumes_expectKeyword _).length_le run'
    have second := h.length_le run''
    simp only [if_true] at first
    omega

theorem Grammar.Steadies.branches (h : g.Steadies g') (k : Nat) :
    Steady 0 0 (g.branches k) (g'.branches k) := by
  induction k with
  | zero => exact .pure _
  | succ k ih =>
    refine (steady_takeKeyword rfl).bind fun _ => .ite (h.expression.bind fun _ => ?_) (.pure _)
    exact (steady_expectKeyword rfl).bind fun _ => h.expression.bind fun _ =>
      ih.bind fun _ => .pure _

theorem Grammar.Steadies.caseFrom (h : g.Steadies g') : Steady 0 0 g.caseFrom g'.caseFrom := by
  have close (operand : Option Expr) (branches : List Branch) : Steady 0 0
      (do
        let otherwise ← Parser.afterKeyword? .else g.expression
        Parser.expectKeyword .end
        return Expr.case operand branches otherwise)
      (do
        let otherwise ← Parser.afterKeyword? .else g'.expression
        Parser.expectKeyword .end
        return Expr.case operand branches otherwise) :=
    (h.expression.afterKeyword rfl).bind fun _ => (steady_expectKeyword rfl).bind fun _ => .pure _
  have rest (operand : Option Expr) : Steady 0 0 (g.caseEnd operand) (g'.caseEnd operand) := by
    refine .bind_remaining (settles_branches h.expression.consumes).bind
      (settles_branches h.expression.consumes').bind fun k => (h.branches k).bind fun _ => ?_
    exact .ite ((steady_unexpected _).bind fun _ => close _ _) (close _ _)
  refine .bind_atKeyword rfl fun _ => .ite (Steady.bind (.pure _) rest) ?_
  exact Steady.bind h.expression.map rest

theorem Grammar.Steadies.windowFrom (h : g.Steadies g') (name : String) (distinct : Bool)
    (args : List Expr) :
    Steady m n (g.windowFrom name distinct args) (g'.windowFrom name distinct args) := by
  have rest (partition : List Expr) : Steady 0 1
      (do return Expr.window name distinct args partition (← g.order))
      (do return Expr.window name distinct args partition (← g'.order)) :=
    h.order.bind fun _ => .pure _
  refine Steady.inParens ((steady_takeWord _).bind fun _ => .ite ?_ (Steady.bind (.pure _) rest))
  exact (steady_expectKeyword rfl).bind fun _ => h.expressions.bind rest

theorem Grammar.Steadies.concatOptions (h : g.Steadies g') :
    Steady m n g.concatOptions g'.concatOptions := by
  refine h.order.bind fun _ => (steady_takeWord _).bind fun _ => .ite ?_ (.pure _)
  refine .bind_peek_cut (fun t => ?_) ?_ ?_ (steady_unexpected "separator string")
  · split
    · exact steady_advance.bind fun _ => .pure _
    · exact steady_unexpected _
  all_goals exact Token.forall_cuts rfl rfl rfl rfl rfl

theorem Grammar.Steadies.callEnd (h : g.Steadies g') (name : String) (distinct : Bool)
    (args : List Expr) (order : List OrderItem) :
    Steady m n (g.callEnd name distinct args order) (g'.callEnd name distinct args order) := by
  have close (order : List OrderItem) : Steady 0 n (g.callResult name distinct args order)
      (g'.callResult name distinct args order) :=
    (steady_takeWord _).bind fun _ =>
      .ite (h.windowFrom name distinct args) (.ite (.pure _) (.ite (.pure _) (.pure _)))
  refine .ite ((steady_takeWord _).bind fun _ => .ite ?_ ?_) (Steady.bind (.pure _) close)
  · exact (steady_expectKeyword rfl).bind fun _ => h.order.inParens.bind close
  · exact Steady.bind (.pure _) close

theorem Grammar.Steadies.callFrom (h : g.Steadies g') (word : String) :
    Steady m n (g.callFrom word) (g'.callFrom word) := by
  have close (distinct : Bool) (args : List Expr) : Steady 0 n
      (g.callClose (Text.upper word) distinct args) (g'.callClose (Text.upper word) distinct args) := by
    have rest (options : List OrderItem × List Expr) : Steady 0 n
        (do
          Parser.expectSymbol .rightParen
          g.callEnd (Text.upper word) distinct (args ++ options.2) options.1)
        (do
          Parser.expectSymbol .rightParen
          g'.callEnd (Text.upper word) distinct (args ++ options.2) options.1) :=
      (steady_expectSymbol rfl).bind fun _ => h.callEnd _ _ _ _
    exact .ite (h.concatOptions.bind rest) (Steady.bind (.pure _) rest)
  refine (steady_expectSymbol rfl).bind fun _ => (steady_takeKeyword rfl).bind fun distinct => ?_
  refine .bind_atSymbol rfl fun _ => .ite ?_ ?_
  · exact Steady.bind (.pure _) (close distinct)
  · exact h.expressions.bind (close distinct)

theorem Grammar.Steadies.parenthesized (h : g.Steadies g') :
    Steady m n g.parenthesized g'.parenthesized := by
  refine Steady.inParens (Steady.later (.bind_atQuery fun _ => .ite ?_ (h.expressions.bind ?_)))
  · exact (h.query.mono (Nat.zero_le 1) (Nat.le_refl 1)).bind fun _ => .pure _
  · intro es
    split <;> exact .pure _

theorem Grammar.Steadies.primary (h : g.Steadies g') : Steady m n g.primary g'.primary := by
  refine .bind_peek_cut (fun t => ?_) ?_ ?_ (steady_unexpected "expression")
  · split
    · exact steady_advance.bind fun _ => .pure _
    · exact steady_advance.bind fun _ => .pure _
    · refine steady_advance.bind fun _ => (steady_takeSymbol rfl).bind fun _ => .ite ?_ (.pure _)
      exact h.expression.any.bind fun _ => .pure _
    · exact steady_advance.bind fun _ => h.query.inParens.bind fun _ => .pure _
    · exact steady_advance.bind fun _ => h.caseFrom.any
    · exact h.parenthesized
    · exact steady_advance.bind fun _ => .bind_atSymbol rfl fun _ =>
        .ite (h.callFrom _) (steady_columnFrom _)
    · exact steady_advance.bind fun _ => steady_columnFrom _
    · exact steady_unexpected _
  all_goals exact Token.forall_cuts rfl rfl rfl rfl rfl

/-! ## Operators -/

/-- What is no cut is not what is behind one. -/
theorem Cut.cons_eq {ls rest tail : List Lexeme} {t : Token} {p : Nat} (cut : Cut rest)
    (h : ls ++ rest = ⟨t, p⟩ :: tail) (other : t.cuts = false) :
    ∃ ls', ls = ⟨t, p⟩ :: ls' ∧ ls' ++ rest = tail := by
  cases ls with
  | nil =>
    obtain rfl : rest = ⟨t, p⟩ :: tail := h
    exact absurd (cut.symm.trans other) Bool.noConfusion
  | cons l ls =>
    obtain ⟨rfl, rfl⟩ := List.cons.inj h
    exact ⟨ls, rfl, rfl⟩

theorem Grammar.Steadies.unary (h : g.Steadies g') : Steady m n g.unary g'.unary where
  consumes := h.consuming.unary
  consumes' := h.consuming'.unary
  resumes {ls mid rest rest' e} cut cut' before after run := by
    clear before after
    generalize whole : ls ++ rest = input at run
    fun_induction g.unary input generalizing ls e with
    | case1 p i q tail =>
      obtain ⟨ls, rfl, next⟩ := cut.cons_eq whole rfl
      obtain ⟨ls, rfl, rfl⟩ := cut.cons_eq next rfl
      obtain ⟨rfl, same⟩ := Prod.mk.inj (Except.ok.inj run)
      rw [← List.append_cancel_right same]
      rfl
    | case2 p f q tail =>
      obtain ⟨ls, rfl, next⟩ := cut.cons_eq whole rfl
      obtain ⟨ls, rfl, rfl⟩ := cut.cons_eq next rfl
      obtain ⟨rfl, same⟩ := Prod.mk.inj (Except.ok.inj run)
      rw [← List.append_cancel_right same]
      rfl
    | case3 p tail integer float ih =>
      obtain ⟨ls, rfl, rfl⟩ := cut.cons_eq whole rfl
      obtain ⟨e, inner, rfl⟩ := wrapped_eq_ok run
      rw [List.cons_append, Grammar.unary, ih rfl inner]
      · rfl
      · intro i q more next
        obtain ⟨ls, rfl, rfl⟩ := cut'.cons_eq next rfl
        exact integer i q (ls ++ rest) rfl
      · intro f q more next
        obtain ⟨ls, rfl, rfl⟩ := cut'.cons_eq next rfl
        exact float f q (ls ++ rest) rfl
    | case4 p tail ih =>
      obtain ⟨ls, rfl, rfl⟩ := cut.cons_eq whole rfl
      obtain ⟨e, inner, rfl⟩ := wrapped_eq_ok run
      rw [List.cons_append, Grammar.unary, ih rfl inner]
      rfl
    | case5 input integer float minus plus =>
      subst whole
      have signless {s : Symbol} (other : (Token.symbol s).cuts = false) {p : Nat}
          {tail : List Lexeme} (next : ls ++ rest' = ⟨.symbol s, p⟩ :: tail) :
          ∃ tail, ls ++ rest = ⟨.symbol s, p⟩ :: tail := by
        obtain ⟨ls, rfl, -⟩ := cut'.cons_eq next other
        exact ⟨ls ++ rest, rfl⟩
      rw [Grammar.unary]
      · exact h.primary.resumes cut cut' (Nat.zero_le _) (Nat.zero_le _) run
      · intro p i q more next
        obtain ⟨tail, same⟩ := signless rfl next
        exact minus p tail same
      · intro p f q more next
        obtain ⟨tail, same⟩ := signless rfl next
        exact minus p tail same
      · intro p more next
        obtain ⟨tail, same⟩ := signless rfl next
        exact minus p tail same
      · intro p more next
        obtain ⟨tail, same⟩ := signless rfl next
        exact plus p tail same

theorem steadyOperator_factor : SteadyOperator (Parser.takeOperator? factorOp?) :=
  steadyOperator_token (Token.forall_cuts rfl rfl rfl rfl rfl)

theorem steadyOperator_term : SteadyOperator (Parser.takeOperator? termOp?) :=
  steadyOperator_token (Token.forall_cuts rfl rfl rfl rfl rfl)

theorem steadyOperator_logic {k : Keyword} (other : (Token.keyword k).cuts = false) (op : LogicOp) :
    SteadyOperator (Parser.takeOperator? (logicOp? k op)) :=
  steadyOperator_token fun t h => by rw [logicOp?, Token.not_keyword_of_cuts h other]; rfl

theorem Grammar.Steadies.sum (h : g.Steadies g') : Steady m n g.sum g'.sum :=
  (h.unary.chain steadyOperator_factor).chain steadyOperator_term

theorem Grammar.Steadies.concatenation (h : g.Steadies g') :
    Steady m n g.concatenation g'.concatenation := by
  refine (h.sum.separatedBy rfl).bind fun es => ?_
  split <;> exact .pure _

theorem Grammar.Steadies.valueSource (h : g.Steadies g') :
    Steady m n g.valueSource g'.valueSource := by
  refine Steady.inParens (Steady.later (.bind_atQuery fun _ => .ite ?_ ?_))
  · exact (h.query.mono (Nat.zero_le 1) (Nat.le_refl 1)).bind fun _ => .pure _
  · exact h.expressions.bind fun _ => .pure _

theorem steady_isOperand : Steady m n isOperand isOperand := by
  refine .bind_peek_cut (fun t => ?_) ?_ ?_ (steady_unexpected "NULL, TRUE, FALSE or UNKNOWN")
  · split
    case h_5 => exact steady_unexpected _
    all_goals exact .bind_peek fun _ => steady_advance.bind fun _ => .pure _
  all_goals exact Token.forall_cuts rfl rfl rfl rfl rfl

/-- Whether a `NOT` in front of the token belongs to the predicate that the token names. -/
def Token.negates : Token → Bool
  | .keyword .between | .keyword .like | .keyword .in => true
  | _ => false

theorem takeNegation_eq (ls : List Lexeme) : takeNegation ls =
    .ok (if (ahead (ls.map Lexeme.token)).isKeyword .not &&
      (ahead (ls.tail.map Lexeme.token)).negates then (true, ls.tail) else (false, ls)) := by
  rw [takeNegation, run_bind (peek_eq ls), run_bind (peekSecond_eq ls), List.map_tail]
  generalize ahead (ls.map Lexeme.token) = t
  generalize ahead (ls.map Lexeme.token).tail = u
  split
  case h_4 between like into =>
    rw [if_neg]
    · rfl
    · intro h
      obtain ⟨ht, hu⟩ := Bool.and_eq_true_iff.1 h
      rw [Token.isKeyword_iff] at ht
      unfold Token.negates at hu
      split at hu
      · exact between ht rfl
      · exact like ht rfl
      · exact into ht rfl
      · cases hu
  all_goals rfl

theorem steady_takeNegation : Steady m n takeNegation takeNegation := by
  have one : Steady 1 n takeNegation takeNegation := by
    refine @Steady.of_two _ _ (fun t u => t.isKeyword .not && u.negates) 1 (by decide)
      (fun ls => (takeNegation_eq ls).trans (by rw [List.drop_one])) consumes_takeNegation ?_
    have second : ∀ u : Token, u.cuts = true → u.negates = false :=
      Token.forall_cuts rfl rfl rfl rfl rfl
    intro t u hu
    rw [second u hu, Bool.and_false]
  have idle (ls : List Lexeme) (cut : Cut ls) : takeNegation ls = .ok (false, ls) := by
    rw [takeNegation_eq, Token.not_keyword_of_cuts cut rfl]
    rfl
  exact one.of_idle idle idle

theorem Grammar.Steadies.comparisonFrom (h : g.Steadies g') (op : CompareOp) (left : Expr) :
    Steady m n (g.comparisonFrom op left) (g'.comparisonFrom op left) := by
  have compare : Steady 0 n (do return Expr.compare op left (← g.concatenation))
      (do return Expr.compare op left (← g'.concatenation)) :=
    h.concatenation.bind fun _ => .pure _
  refine .bind_peek_cut (fun t => ?_) ?_ ?_ compare
  · split
    case h_4 => exact h.concatenation.bind fun _ => .pure _
    all_goals exact steady_advance.bind fun _ => h.valueSource.bind fun _ => .pure _
  all_goals exact Token.forall_cuts rfl rfl rfl rfl rfl

theorem Grammar.Steadies.comparison (h : g.Steadies g') :
    Steady m n g.comparison g'.comparison := by
  refine h.concatenation.bind fun left => (steady_takeKeyword rfl).bind fun _ => .ite ?_ ?_
  · exact (steady_takeKeyword rfl).bind fun _ => steady_isOperand.bind fun _ => .pure _
  · have other : ∀ t, t.cuts = true → compareOp? t = none := Token.forall_cuts rfl rfl rfl rfl rfl
    refine steady_takeNegation.bind fun _ => .bind_peek_cut (fun t => ?_)
      (Token.forall_cuts rfl rfl rfl rfl rfl) (Token.forall_cuts rfl rfl rfl rfl rfl)
      (.bind_takeOperator other (fun op => h.comparisonFrom op left) (.pure _))
    split
    · exact steady_advance.bind fun _ => h.concatenation.bind fun _ =>
        (steady_expectKeyword rfl).bind fun _ => h.concatenation.bind fun _ => .pure _
    · exact steady_advance.bind fun _ => h.concatenation.bind fun _ => .pure _
    · exact steady_advance.bind fun _ => h.valueSource.bind fun _ => .pure _
    · exact .bind_takeOperator other (fun op => h.comparisonFrom op left) (.pure _)

theorem Grammar.Steadies.negation (h : g.Steadies g') : Steady m n g.negation g'.negation where
  consumes := h.consuming.negation
  consumes' := h.consuming'.negation
  resumes {ls mid rest rest' e} cut cut' before after run := by
    clear before after
    generalize whole : ls ++ rest = input at run
    fun_induction g.negation input generalizing ls e with
    | case1 p tail ih =>
      obtain ⟨ls, rfl, rfl⟩ := cut.cons_eq whole rfl
      obtain ⟨e, inner, rfl⟩ := wrapped_eq_ok run
      rw [List.cons_append, Grammar.negation, ih rfl inner]
      rfl
    | case2 input other =>
      subst whole
      rw [Grammar.negation]
      · exact h.comparison.resumes cut cut' (Nat.zero_le _) (Nat.zero_le _) run
      · intro p tail next
        obtain ⟨ls, rfl, -⟩ := cut'.cons_eq next rfl
        exact other p (ls ++ rest) rfl

theorem Grammar.Steadies.disjunction (h : g.Steadies g') :
    Steady m n g.disjunction g'.disjunction :=
  (h.negation.chain (steadyOperator_logic rfl _)).chain (steadyOperator_logic rfl _)

/-! ## Sources -/

theorem Grammar.Steadies.valueRows (h : g.Steadies g') : Steady m n g.valueRows g'.valueRows :=
  h.expressions.inParens.separatedBy rfl

theorem steady_sourceColumns (aliasName : Option String) :
    Steady m n (sourceColumns aliasName) (sourceColumns aliasName) := by
  cases aliasName with
  | none => exact .pure _
  | some name => exact .bind_atSymbol rfl fun _ => .ite steady_columnNames (.pure _)

theorem steady_valuesSource (rows : List (List Expr)) :
    Steady m n (valuesSource rows) (valuesSource rows) :=
  (steady_takeAlias _).bind fun _ => (steady_sourceColumns _).bind fun _ => .pure _

theorem steady_subquerySource (q : Query) : Steady m n (subquerySource q) (subquerySource q) :=
  (steady_takeAlias _).bind fun _ => (steady_sourceColumns _).bind fun _ => .pure _

theorem Grammar.Steadies.parenthesizedSource (h : g.Steadies g') :
    Steady m n g.parenthesizedSource g'.parenthesizedSource := by
  refine (steady_takeKeyword rfl).bind fun _ => .ite ?_ (Steady.of_shortens ?_ ?_)
  · exact h.valueRows.bind fun rows => (steady_expectSymbol rfl).bind fun _ =>
      steady_valuesSource rows
  · refine .bind_atQuery fun _ => .bind_atSymbol rfl fun _ => .ite ?_ ?_
    · refine (h.query.mono (Nat.zero_le 1) (Nat.le_refl 1)).bind_shortens (fun q => ?_) fun q => ?_
      · exact (steady_expectSymbol rfl).bind fun _ => steady_subquerySource q
      · exact (shortens_expectSymbol _).bind fun _ => consumes_subquerySource q
    · exact h.source.any.bind fun _ => (steady_expectSymbol rfl).bind fun _ => .pure _
  · refine consumes_atQuery.bind_shortens fun _ => (consumes_atSymbol _).bind_shortens fun _ =>
      .ite ?_ ?_
    · exact h.query.consumes.bind_shortens fun q => (shortens_expectSymbol _).bind fun _ =>
        consumes_subquerySource q
    · exact h.source.consumes.bind_shortens fun _ => (shortens_expectSymbol _).bind fun _ => .pure _

theorem steady_tableName : Steady m n tableName tableName :=
  ((steady_expectName _).separatedBy rfl).bind fun _ => .pure _

theorem Grammar.Steadies.sourcePrimary (h : g.Steadies g') :
    Steady m n g.sourcePrimary g'.sourcePrimary := by
  refine .bind_peek_cut (fun t => ?_) ?_ ?_ (steady_unexpected "table")
  · split
    · exact steady_advance.bind fun _ => (steady_takeAlias _).bind fun _ => .pure _
    · exact steady_advance.bind fun _ => (steady_takeAlias _).bind fun _ => .pure _
    · exact steady_advance.bind fun _ => h.valueRows.bind fun _ => steady_valuesSource _
    · exact steady_advance.bind fun _ => h.parenthesizedSource
    · exact steady_tableName.bind fun _ => (steady_takeAlias _).bind fun _ => .pure _
    · exact steady_tableName.bind fun _ => (steady_takeAlias _).bind fun _ => .pure _
    · exact steady_unexpected _
  all_goals exact Token.forall_cuts rfl rfl rfl rfl rfl

theorem steady_takeJoinKind : Steady m n takeJoinKind? takeJoinKind? := by
  have outer (kind : JoinKind) : Steady 1 n (takeJoinKind?.outer kind) (takeJoinKind?.outer kind) :=
    steady_advance.bind fun _ => (steady_takeKeyword rfl).bind fun _ => .pure _
  refine .bind_peek_cut (fun t => ?_) ?_ ?_ (.pure none)
  · split
    · exact steady_advance.bind fun _ => .pure _
    · exact outer _
    · exact outer _
    · exact outer _
    · exact .pure _
    · exact .pure _
  all_goals exact Token.forall_cuts rfl rfl rfl rfl rfl

theorem Grammar.Steadies.joinMatch (h : g.Steadies g') (kind : JoinKind) :
    Steady m n (g.joinMatch kind) (g'.joinMatch kind) := by
  refine (steady_takeKeyword rfl).bind fun _ => .ite (h.expression.any.bind fun _ => .pure _) ?_
  refine (steady_takeKeyword rfl).bind fun _ => .ite (steady_columnNames.bind fun _ => .pure _) ?_
  exact .ite (.pure _) (steady_unexpected _)

theorem Grammar.Steadies.joinFrom (h : g.Steadies g') (kind : JoinKind) (natural : Bool)
    (left : Source) : Steady m n (g.joinFrom kind natural left) (g'.joinFrom kind natural left) := by
  have rest (right : Source) (matching : JoinMatch) : Steady 0 n
      (Pure.pure (.join kind left right matching) : Parser Source) (Pure.pure _) := .pure _
  refine (steady_expectKeyword rfl).bind fun _ => h.sourcePrimary.bind fun right =>
    .ite ?_ (.ite ?_ ?_)
  · exact Steady.bind (.pure _) (rest right)
  · exact Steady.bind (.pure _) (rest right)
  · exact (h.joinMatch kind).bind (rest right)

theorem shortens_joinFrom (h : g.Consuming) (kind : JoinKind) (natural : Bool) (left : Source) :
    Shortens (g.joinFrom kind natural left) := by
  have rest (right : Source) (matching : JoinMatch) :
      Consumes (Pure.pure (.join kind left right matching) : Parser Source) := .pure _
  refine (shortens_expectKeyword _).bind fun _ => h.sourcePrimary.bind fun right => .ite ?_ (.ite ?_ ?_)
  · exact Consumes.bind (.pure _) (rest right)
  · exact Consumes.bind (.pure _) (rest right)
  · exact (h.joinMatch kind).bind (rest right)

theorem settles_joinsFrom (h : g.Consuming) (left : Source) : Settles fun k => g.joinsFrom k left := by
  refine Settles.of_step (fun k left => by cases k <;> rfl) (fun k k' left ls ih => ?_) left
  have join (kind : JoinKind) (natural : Bool) {mid : List Lexeme} (before : mid.length ≤ ls.length) :
      (g.joinFrom kind natural left >>= g.joinsFrom k) mid
        = (g.joinFrom kind natural left >>= g.joinsFrom k') mid :=
    bind_congr_run fun joined rest run =>
      ih joined rest (Nat.lt_of_lt_of_le (shortens_joinFrom h _ _ _ _ _ _ run) before)
  refine bind_congr_run fun cross mid run => ?_
  have first := (consumes_takeIf _).length_le run
  cases cross with
  | true => exact join .cross false first
  | false =>
    refine bind_congr_run fun natural mid' run' => bind_congr_run fun kind? mid'' run'' => ?_
    have second := (consumes_takeIf _).length_le run'
    have third := consumes_takeJoinKind.length_le run''
    cases kind? with
    | some kind => exact join kind natural (by omega)
    | none => rfl

theorem Grammar.Steadies.joinsFrom (h : g.Steadies g') (k : Nat) (left : Source) :
    Steady 0 0 (g.joinsFrom k left) (g'.joinsFrom k left) := by
  induction k generalizing left with
  | zero => exact .pure _
  | succ k ih =>
    refine (steady_takeKeyword rfl).bind fun _ => .ite ((h.joinFrom _ _ _).bind fun _ => ih _) ?_
    refine (steady_takeKeyword rfl).bind fun natural => steady_takeJoinKind.bind fun kind? => ?_
    cases kind? with
    | some kind => exact (h.joinFrom _ _ _).bind fun _ => ih _
    | none => exact .ite (steady_unexpected _) (.pure _)

theorem Grammar.Steadies.joinedSource (h : g.Steadies g') :
    Steady m n g.joinedSource g'.joinedSource :=
  Steady.any (h.sourcePrimary.bind fun left => .bind_remaining (settles_joinsFrom h.consuming left)
    (settles_joinsFrom h.consuming' left) fun k => h.joinsFrom k left)

/-! ## Queries -/

theorem steady_takeDistinct : Steady m n takeDistinct takeDistinct :=
  (steady_takeKeyword rfl).bind fun _ =>
    .ite (.pure _) ((steady_takeKeyword rfl).bind fun _ => .pure _)

theorem steady_takeAll : Steady m n takeAll takeAll :=
  (steady_takeKeyword rfl).bind fun _ =>
    .ite (.pure _) ((steady_takeKeyword rfl).bind fun _ => .pure _)

theorem Grammar.Steadies.selectBody (h : g.Steadies g') :
    Steady m n g.selectBody g'.selectBody := by
  have field : Steady 0 0 g.field g'.field :=
    h.expression.bind fun _ => (steady_takeAlias _).bind fun _ => .pure _
  refine (steady_expectKeyword rfl).bind fun _ => steady_takeDistinct.bind fun _ =>
    (field.separatedBy rfl).bind fun _ => ((h.source.separatedBy rfl).afterKeyword rfl).bind fun _ =>
    (h.expression.any.afterKeyword rfl).bind fun _ =>
    Steady.bind (Steady.afterKeyword rfl ?_) fun _ =>
    (h.expression.any.afterKeyword rfl).bind fun _ => .pure _
  exact (steady_expectKeyword rfl).bind fun _ => h.expressions

theorem Grammar.Steadies.bodyPrimary (h : g.Steadies g') :
    Steady m n g.bodyPrimary g'.bodyPrimary :=
  .bind_atSymbol rfl fun _ => .ite (h.query.inParens.bind fun _ => .pure _) h.selectBody

theorem steadyOperator_set {op? : Token → Option SetOp}
    (other : ∀ t, t.cuts = true → op? t = none) : SteadyOperator (takeSetOp? op?) where
  nothing := run_bind (takeOperator_nothing (other _ rfl))
  shortens ls combine rest run := by
    obtain ⟨op?, mid, first, second⟩ := bind_eq_ok.1 run
    cases op? with
    | none => cases second
    | some op =>
      have all : Consumes (do return some (Body.combine op (← takeAll))) :=
        consumes_takeAll.bind fun _ => .pure _
      exact Nat.lt_of_le_of_lt (all.length_le second) (length_of_takeOperator (other _ rfl) first)
  steady := .bind_takeOperator other (fun _ => steady_takeAll.bind fun _ => .pure _) (.pure _)

theorem Grammar.Steadies.body (h : g.Steadies g') : Steady m n g.body g'.body := by
  have intersect : ∀ t, t.cuts = true → intersectOp? t = none :=
    Token.forall_cuts rfl rfl rfl rfl rfl
  have union : ∀ t, t.cuts = true → unionOp? t = none := Token.forall_cuts rfl rfl rfl rfl rfl
  exact (h.bodyPrimary.chain (steadyOperator_set intersect)).chain (steadyOperator_set union)

theorem Grammar.Steadies.inlineDefs (h : g.Steadies g') :
    Steady 1 n g.inlineDefs g'.inlineDefs := by
  have rest (name : String) (columns : List String) : Steady 0 0
      (do
        Parser.expectKeyword .as
        return InlineDef.mk name columns (← Parser.inParens g.query))
      (do
        Parser.expectKeyword .as
        return InlineDef.mk name columns (← Parser.inParens g'.query)) :=
    (steady_expectKeyword rfl).bind fun _ => h.query.inParens.bind fun _ => .pure _
  have item : Steady 0 0 g.inlineDef g'.inlineDef :=
    (steady_expectName _).bind fun name => .bind_atSymbol rfl fun _ =>
      .ite (steady_columnNames.bind (rest name)) (Steady.bind (.pure _) (rest name))
  exact (steady_takeIf_one _).bind fun _ => .ite ((steady_takeKeyword rfl).bind fun _ =>
    (item.separatedBy rfl).bind fun _ => .pure _) (.pure _)

theorem Grammar.Steadies.offset (h : g.Steadies g') : Steady 0 1 g.offset g'.offset := by
  refine (steady_takeIf_one _).later.bind fun _ => .ite ?_ (.pure _)
  refine Steady.bind ?_ fun _ => .pure _
  refine h.expression.any.bind fun _ => (steady_takeWord _).bind fun _ => ?_
  exact .ite ((steady_takeWord _).bind fun _ => .pure _) (.pure _)

theorem takeTies_eq (ls : List Lexeme) : takeTies ls =
    .ok (if (ahead (ls.map Lexeme.token)).isKeyword .with &&
      (ahead (ls.tail.map Lexeme.token)).isWord "TIES" then (true, ls.drop 2) else (false, ls)) := by
  rw [takeTies, run_bind (peek_eq ls), run_bind (peekSecond_eq ls), List.map_tail]
  split
  · rcases ls with _ | ⟨l, _ | _⟩ <;> rfl
  · rfl

theorem steady_takeTies : Steady 1 n takeTies takeTies :=
  @Steady.of_two _ _ (fun t u => t.isKeyword .with && u.isWord "TIES") 2 (Nat.le_refl 2) takeTies_eq
    consumes_takeTies fun t u hu => by rw [Token.not_word_of_cuts hu, Bool.and_false]

theorem Grammar.Steadies.limit (h : g.Steadies g') : Steady 0 1 g.limit g'.limit := by
  refine (steady_takeIf_one _).later.bind fun _ => .ite (h.expression.any.bind fun _ => ?_) (.pure _)
  exact (steady_takeWord _).bind fun _ => steady_takeTies.later.bind fun _ => .pure _

theorem Grammar.Steadies.fullQuery (h : g.Steadies g') : Steady 0 1 g.fullQuery g'.fullQuery := by
  have rest (tables : Bool × List InlineDef) (body : Body) (order : List OrderItem) (limit : Limit)
      (offset : Option Expr) : Steady 0 1
      (Pure.pure (Query.mk tables.1 tables.2 body order offset limit) : Parser Query)
      (Pure.pure (Query.mk tables.1 tables.2 body order offset limit)) := .pure _
  refine h.inlineDefs.later.bind fun tables => h.body.bind fun body => h.order.bind fun order =>
    h.offset.bind fun early => h.limit.bind fun limit => .ite ?_ ?_
  · exact Steady.bind (.pure _) (rest tables body order limit)
  · exact h.offset.bind (rest tables body order limit)

/-! ## Depth -/

/-- A text that is cut short is nested less deep. -/
theorem steadies_ofDepth {depth depth' : Nat} (deeper : depth ≤ depth') :
    (Grammar.ofDepth depth).Steadies (Grammar.ofDepth depth') := by
  induction depth generalizing depth' with
  | zero =>
    have consumes := consuming_ofDepth depth'
    exact ⟨⟨consumes_unexpected _, consumes.expression, fun _ _ _ _ run => absurd run unexpected_ne_ok⟩,
      ⟨consumes_unexpected _, consumes.query, fun _ _ _ _ run => absurd run unexpected_ne_ok⟩,
      ⟨consumes_unexpected _, consumes.source, fun _ _ _ _ run => absurd run unexpected_ne_ok⟩⟩
  | succ depth ih =>
    cases depth' with
    | zero => exact absurd deeper (Nat.not_succ_le_zero depth)
    | succ depth' =>
      have steadies := ih (Nat.le_of_succ_le_succ deeper)
      exact ⟨steadies.disjunction, steadies.fullQuery, steadies.joinedSource⟩

end

end TableQuery.Language
