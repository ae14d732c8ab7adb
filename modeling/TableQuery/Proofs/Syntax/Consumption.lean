import TableQuery.Proofs.Syntax.Nesting

/-!
# What parsers leave

A parser takes tokens from the front only, so what it leaves is the end of what it was given. A list
or a chain therefore never runs out of its bound before it runs out of tokens. Where a parser fails,
it stands at such an end, too, and its error names the token there.
-/

namespace TableQuery.Language

open Language.Grammar

/-- The error says that the first one of the lexemes is not what is expected, and where it stands. -/
def Unexpected (ls : List Lexeme) (e : QueryError) : Prop :=
  ∃ expected, e = .badSyntax
    (.unexpectedToken expected (ls.headD ⟨.ending, 0⟩).token.display) (ls.headD ⟨.ending, 0⟩).position

/-- What the parser leaves is the end of what it was given, and it fails at such an end. -/
structure Consumes {α : Type} (p : Parser α) : Prop where
  leaves : ∀ {ls rest : List Lexeme} {a : α}, p ls = .ok (a, rest) → rest <:+ ls
  fails : ∀ {ls : List Lexeme} {e : QueryError}, p ls = .error e → ∃ rest, rest <:+ ls ∧ Unexpected rest e

section

variable {α β : Type} {p q : Parser α} {f : α → Parser β} {g : α → β}

/-! ## Running in turn -/

theorem Consumes.length_le {ls rest : List Lexeme} {a : α} (h : Consumes p)
    (run : p ls = .ok (a, rest)) : rest.length ≤ ls.length :=
  (h.leaves run).length_le

theorem Consumes.bind (h : Consumes p) (h' : ∀ a, Consumes (f a)) : Consumes (p >>= f) where
  leaves run := by
    obtain ⟨a, mid, first, second⟩ := bind_eq_ok.1 run
    exact ((h' a).leaves second).trans (h.leaves first)
  fails run := by
    obtain first | ⟨a, mid, first, second⟩ := bind_eq_error.1 run
    · exact h.fails first
    · obtain ⟨rest, suffix, error⟩ := (h' a).fails second
      exact ⟨rest, suffix.trans (h.leaves first), error⟩

/-- The second parser runs the first one, and then takes tokens from the front only. -/
def StartsBy (p : Parser α) (q : Parser β) : Prop :=
  ∃ f, q = p >>= f ∧ ∀ a, Consumes (f a)

theorem StartsBy.consumes {q : Parser β} (h : StartsBy p q) (h' : Consumes p) : Consumes q := by
  obtain ⟨f, rfl, after⟩ := h
  exact h'.bind after

/-- A parser that looks at the tokens and takes none. -/
theorem Consumes.of_look {view : List Lexeme → α} (h : ∀ ls, p ls = .ok (view ls, ls)) :
    Consumes p where
  leaves {ls rest a} run := by
    rw [h ls] at run
    cases run
    exact List.suffix_rfl
  fails {ls e} run := by
    rw [h ls] at run
    cases run

theorem Consumes.pure (a : α) : Consumes (Pure.pure a : Parser α) :=
  Consumes.of_look fun _ => rfl

theorem Consumes.map (h : Consumes p) : Consumes (g <$> p) := by
  rw [← bind_pure_comp]
  exact h.bind fun _ => Consumes.pure _

theorem Consumes.ite {c : Prop} [Decidable c] (h : Consumes p) (h' : Consumes q) :
    Consumes (if c then p else q) := by
  split <;> assumption

theorem consumes_unexpected (expected : String) : Consumes (Parser.unexpected expected : Parser α) where
  leaves run := absurd run unexpected_ne_ok
  fails {ls _} run := ⟨ls, List.suffix_rfl, expected, (Except.error.inj run).symm⟩

/-! ## Single tokens -/

theorem consumes_peek : Consumes Parser.peek :=
  Consumes.of_look peek_eq

theorem consumes_peekSecond : Consumes Parser.peekSecond :=
  Consumes.of_look fun _ => rfl

theorem consumes_remaining : Consumes Parser.remaining :=
  Consumes.of_look fun _ => rfl

theorem consumes_advance : Consumes Parser.advance where
  leaves {ls rest u} run := by
    obtain rfl : ls.tail = rest := congrArg Prod.snd (Except.ok.inj run)
    exact List.tail_suffix ls
  fails run := by cases run

theorem consumes_takeIf (test : Token → Bool) : Consumes (Parser.takeIf test) :=
  consumes_peek.bind fun _ => .ite (consumes_advance.bind fun _ => .pure _) (.pure _)

theorem consumes_atKeyword (k : Keyword) : Consumes (Parser.atKeyword k) :=
  consumes_peek.bind fun _ => .pure _

theorem consumes_atSymbol (s : Symbol) : Consumes (Parser.atSymbol s) :=
  consumes_peek.bind fun _ => .pure _

theorem consumes_atQuery : Consumes Parser.atQuery :=
  consumes_peek.bind fun _ => .pure _

theorem consumes_expectKeyword (k : Keyword) : Consumes (Parser.expectKeyword k) :=
  (consumes_takeIf _).bind fun _ => .ite (consumes_unexpected _) (.pure _)

theorem consumes_expectSymbol (s : Symbol) : Consumes (Parser.expectSymbol s) :=
  (consumes_takeIf _).bind fun _ => .ite (consumes_unexpected _) (.pure _)

theorem consumes_takeName : Consumes Parser.takeName? := by
  refine consumes_peek.bind fun t => ?_
  cases t.name? with
  | some name => exact consumes_advance.bind fun _ => .pure _
  | none => exact .pure _

theorem consumes_expectName (what : String) : Consumes (Parser.expectName what) := by
  refine consumes_takeName.bind fun name? => ?_
  cases name? with
  | some name => exact .pure _
  | none => exact consumes_unexpected _

theorem consumes_takeAlias (what : String) : Consumes (Parser.takeAlias? what) :=
  (consumes_takeIf _).bind fun _ =>
    .ite ((consumes_expectName what).bind fun _ => .pure _) consumes_takeName

theorem consumes_takeOperator {operator? : Token → Option α} :
    Consumes (Parser.takeOperator? operator?) := by
  refine consumes_peek.bind fun t => ?_
  cases operator? t with
  | some op => exact consumes_advance.bind fun _ => .pure _
  | none => exact .pure _

/-! ## Combinators -/

theorem Consumes.inParens (h : Consumes p) : Consumes (Parser.inParens p) :=
  (consumes_expectSymbol _).bind fun _ => h.bind fun _ => (consumes_expectSymbol _).bind fun _ => .pure _

theorem Consumes.afterKeyword (k : Keyword) (h : Consumes p) : Consumes (Parser.afterKeyword? k p) :=
  (consumes_takeIf _).bind fun _ => .ite (h.bind fun _ => .pure _) (.pure _)

theorem Consumes.itemsAfter (separator : Symbol) (h : Consumes p) (bound : Nat) :
    Consumes (Parser.itemsAfter separator p bound) := by
  induction bound with
  | zero => exact .pure _
  | succ bound ih =>
    exact (consumes_takeIf _).bind fun _ =>
      .ite (h.bind fun _ => ih.bind fun _ => .pure _) (.pure _)

theorem Consumes.separatedBy (separator : Symbol) (h : Consumes p) :
    Consumes (Parser.separatedBy separator p) :=
  h.bind fun _ => consumes_remaining.bind fun n => (h.itemsAfter separator n).bind fun _ => .pure _

theorem Consumes.chainFrom {operator? : Parser (Option (α → α → α))} (h : Consumes p)
    (h' : Consumes operator?) (bound : Nat) (left : α) :
    Consumes (Parser.chainFrom p operator? bound left) := by
  induction bound generalizing left with
  | zero => exact .pure _
  | succ bound ih =>
    refine h'.bind fun op? => ?_
    cases op? with
    | none => exact .pure _
    | some combine => exact h.bind fun _ => ih _

theorem Consumes.chain {operator? : Parser (Option (α → α → α))} (h : Consumes p)
    (h' : Consumes operator?) : Consumes (Parser.chain p operator?) :=
  h.bind fun _ => consumes_remaining.bind fun n => h.chainFrom h' n _

theorem consumes_columnNames : Consumes Parser.columnNames :=
  ((consumes_expectName _).separatedBy _).inParens

end

/-! ## The grammar -/

/-- The parsers of a grammar take tokens from the front only. -/
structure Grammar.Consuming (g : Grammar) : Prop where
  expression : Consumes g.expression
  query : Consumes g.query
  source : Consumes g.source

section

variable {g : Grammar}

theorem Grammar.Consuming.expressions (h : g.Consuming) : Consumes g.expressions :=
  h.expression.separatedBy _

theorem consumes_takeNulls : Consumes takeNulls? := by
  refine (consumes_takeIf _).bind fun _ => .ite ((consumes_takeIf _).bind fun _ => .ite (.pure _) ?_)
    (.pure _)
  exact (consumes_takeIf _).bind fun _ => .ite (.pure _) (consumes_unexpected _)

theorem Grammar.Consuming.order (h : g.Consuming) : Consumes g.order := by
  have item : Consumes g.orderItem :=
    h.expression.bind fun _ => consumes_takeOperator.bind fun _ =>
      consumes_takeNulls.bind fun _ => .pure _
  exact (consumes_takeIf _).bind fun _ =>
    .ite ((consumes_expectKeyword _).bind fun _ => item.separatedBy _) (.pure _)

theorem consumes_columnFrom (first : String) : Consumes (columnFrom first) := by
  refine (consumes_takeIf _).bind fun _ => .ite ((consumes_takeIf _).bind fun _ => ?_) (.pure _)
  exact .ite (.pure _) ((consumes_expectName _).bind fun _ => .pure _)

theorem Grammar.Consuming.branches (h : g.Consuming) (bound : Nat) : Consumes (g.branches bound) := by
  induction bound with
  | zero => exact .pure _
  | succ bound ih =>
    refine (consumes_takeIf _).bind fun _ => .ite (h.expression.bind fun _ => ?_) (.pure _)
    exact (consumes_expectKeyword _).bind fun _ => h.expression.bind fun _ => ih.bind fun _ => .pure _

theorem Grammar.Consuming.caseFrom (h : g.Consuming) : Consumes g.caseFrom := by
  have close (operand : Option Expr) (branches : List Branch) : Consumes (do
      let otherwise ← Parser.afterKeyword? .else g.expression
      Parser.expectKeyword .end
      return Expr.case operand branches otherwise) :=
    (h.expression.afterKeyword _).bind fun _ => (consumes_expectKeyword _).bind fun _ => .pure _
  have rest (operand : Option Expr) : Consumes (g.caseEnd operand) :=
    consumes_remaining.bind fun n => (h.branches n).bind fun _ =>
      .ite ((consumes_unexpected _).bind fun _ => close _ _) (close _ _)
  have operand : Consumes (some <$> g.expression) := h.expression.map
  exact (consumes_atKeyword _).bind fun _ => .ite (Consumes.bind (.pure _) rest) (operand.bind rest)

theorem Grammar.Consuming.windowFrom (h : g.Consuming) (name : String) (distinct : Bool)
    (args : List Expr) : Consumes (g.windowFrom name distinct args) := by
  have rest (partition : List Expr) : Consumes (do
      return Expr.window name distinct args partition (← g.order)) :=
    h.order.bind fun _ => .pure _
  refine Consumes.inParens ((consumes_takeIf _).bind fun _ => .ite ?_ (Consumes.bind (.pure _) rest))
  exact (consumes_expectKeyword _).bind fun _ => h.expressions.bind rest

theorem Grammar.Consuming.concatOptions (h : g.Consuming) : Consumes g.concatOptions := by
  refine h.order.bind fun _ => (consumes_takeIf _).bind fun _ => .ite ?_ (.pure _)
  refine consumes_peek.bind fun t => ?_
  split
  · exact consumes_advance.bind fun _ => .pure _
  · exact consumes_unexpected _

theorem Grammar.Consuming.callEnd (h : g.Consuming) (name : String) (distinct : Bool)
    (args : List Expr) (order : List OrderItem) : Consumes (g.callEnd name distinct args order) := by
  have close (order : List OrderItem) : Consumes (g.callResult name distinct args order) :=
    (consumes_takeIf _).bind fun _ =>
      .ite (h.windowFrom name distinct args) (.ite (.pure _) (.ite (.pure _) (.pure _)))
  refine .ite ((consumes_takeIf _).bind fun _ => .ite ?_ ?_) (Consumes.bind (.pure _) close)
  · exact (consumes_expectKeyword _).bind fun _ => h.order.inParens.bind close
  · exact Consumes.bind (.pure _) close

theorem Grammar.Consuming.callFrom (h : g.Consuming) (word : String) : Consumes (g.callFrom word) := by
  have close (distinct : Bool) (args : List Expr) :
      Consumes (g.callClose (Text.upper word) distinct args) := by
    have rest (options : List OrderItem × List Expr) : Consumes (do
        Parser.expectSymbol .rightParen
        g.callEnd (Text.upper word) distinct (args ++ options.2) options.1) :=
      (consumes_expectSymbol _).bind fun _ => h.callEnd _ _ _ _
    exact .ite (h.concatOptions.bind rest) (Consumes.bind (.pure _) rest)
  refine (consumes_expectSymbol _).bind fun _ => (consumes_takeIf _).bind fun distinct => ?_
  refine (consumes_atSymbol _).bind fun _ => .ite ?_ ?_
  · exact Consumes.bind (.pure _) (close distinct)
  · exact h.expressions.bind (close distinct)

theorem Grammar.Consuming.parenthesized (h : g.Consuming) : Consumes g.parenthesized := by
  refine Consumes.inParens (consumes_atQuery.bind fun _ => .ite (h.query.bind fun _ => .pure _) ?_)
  refine h.expressions.bind fun es => ?_
  split <;> exact .pure _

theorem Grammar.Consuming.primary (h : g.Consuming) : Consumes g.primary := by
  refine consumes_peek.bind fun t => ?_
  split
  · exact consumes_advance.bind fun _ => .pure _
  · exact consumes_advance.bind fun _ => .pure _
  · refine consumes_advance.bind fun _ => (consumes_takeIf _).bind fun _ => .ite ?_ (.pure _)
    exact h.expression.bind fun _ => .pure _
  · exact consumes_advance.bind fun _ => h.query.inParens.bind fun _ => .pure _
  · exact consumes_advance.bind fun _ => h.caseFrom
  · exact h.parenthesized
  · exact consumes_advance.bind fun _ => (consumes_atSymbol _).bind fun _ =>
      .ite (h.callFrom _) (consumes_columnFrom _)
  · exact consumes_advance.bind fun _ => consumes_columnFrom _
  · exact consumes_unexpected _

/-! ## Operators -/

/-- What a run of the level of signs did: a minus sign joined the number behind it, or a sign stood in
front of an operand. -/
inductive UnaryRun (g : Grammar) : List Lexeme → Expr → List Lexeme → Prop
  | integer (i : Int64) (p q : Nat) (rest : List Lexeme) :
    UnaryRun g (⟨.symbol .minus, p⟩ :: ⟨.integer i, q⟩ :: rest) (.literal (.integer (-i))) rest
  | float (f : Float) (p q : Nat) (rest : List Lexeme) :
    UnaryRun g (⟨.symbol .minus, p⟩ :: ⟨.float f, q⟩ :: rest) (.literal (.float (-f))) rest
  | signed (sign : Sign) (p : Nat) {ls rest : List Lexeme} {e : Expr} : UnaryRun g ls e rest →
    UnaryRun g (⟨.symbol sign.symbol, p⟩ :: ls) (.signed sign e) rest
  | primary {ls rest : List Lexeme} {e : Expr} : g.primary ls = .ok (e, rest) → UnaryRun g ls e rest

theorem wrapped_eq_ok {run : Except QueryError (Expr × List Lexeme)} {wrap : Expr → Expr} {e : Expr}
    {rest : List Lexeme}
    (h : (do let (e, rest) ← run; Except.ok (wrap e, rest)) = .ok (e, rest)) :
    ∃ e', run = .ok (e', rest) ∧ e = wrap e' := by
  cases run with
  | error _ => cases h
  | ok result =>
    cases h
    exact ⟨_, rfl, rfl⟩

theorem wrapped_eq_error {run : Except QueryError (Expr × List Lexeme)} {wrap : Expr → Expr}
    {e : QueryError} (h : (do let (e, rest) ← run; Except.ok (wrap e, rest)) = .error e) :
    run = .error e := by
  cases run with
  | error _ => exact h
  | ok result => cases h

/-- What fails behind the first lexeme fails at an end of the whole. -/
theorem fails_behind {l : Lexeme} {ls : List Lexeme} {e : QueryError}
    (h : ∃ rest, rest <:+ ls ∧ Unexpected rest e) : ∃ rest, rest <:+ l :: ls ∧ Unexpected rest e := by
  obtain ⟨rest, suffix, error⟩ := h
  exact ⟨rest, suffix.trans (List.suffix_cons l ls), error⟩

theorem unaryRun {ls rest : List Lexeme} {e : Expr} (run : g.unary ls = .ok (e, rest)) :
    UnaryRun g ls e rest := by
  fun_induction g.unary ls generalizing e rest with
  | case1 p i q ls => cases run; exact .integer i p q ls
  | case2 p f q ls => cases run; exact .float f p q ls
  | case3 p ls _ _ ih =>
    obtain ⟨e, inner, rfl⟩ := wrapped_eq_ok run
    exact .signed .minus p (ih inner)
  | case4 p ls ih =>
    obtain ⟨e, inner, rfl⟩ := wrapped_eq_ok run
    exact .signed .plus p (ih inner)
  | case5 => exact .primary run

theorem Grammar.Consuming.unary (h : g.Consuming) : Consumes g.unary where
  leaves run := by
    replace run := unaryRun run
    induction run with
    | integer | float => exact (List.suffix_cons _ _).trans (List.suffix_cons _ _)
    | signed _ _ _ ih => exact ih.trans (List.suffix_cons _ _)
    | primary run => exact h.primary.leaves run
  fails {ls e} run := by
    fun_induction g.unary ls with
    | case1 | case2 => cases run
    | case3 p ls _ _ ih => exact fails_behind (ih (wrapped_eq_error run))
    | case4 p ls ih => exact fails_behind (ih (wrapped_eq_error run))
    | case5 => exact h.primary.fails run

theorem Grammar.Consuming.term (h : g.Consuming) : Consumes g.term :=
  h.unary.chain consumes_takeOperator

theorem Grammar.Consuming.sum (h : g.Consuming) : Consumes g.sum :=
  h.term.chain consumes_takeOperator

theorem Grammar.Consuming.concatenation (h : g.Consuming) : Consumes g.concatenation := by
  refine (h.sum.separatedBy _).bind fun es => ?_
  split <;> exact .pure _

theorem Grammar.Consuming.valueSource (h : g.Consuming) : Consumes g.valueSource :=
  Consumes.inParens (consumes_atQuery.bind fun _ =>
    .ite (h.query.bind fun _ => .pure _) (h.expressions.bind fun _ => .pure _))

theorem consumes_isOperand : Consumes isOperand := by
  refine consumes_peek.bind fun t => ?_
  split
  case h_5 => exact consumes_unexpected _
  all_goals exact consumes_peek.bind fun _ => consumes_advance.bind fun _ => .pure _

theorem consumes_takeNegation : Consumes takeNegation := by
  refine consumes_peek.bind fun t => consumes_peekSecond.bind fun u => ?_
  split
  case h_4 => exact .pure _
  all_goals exact consumes_advance.bind fun _ => .pure _

theorem Grammar.Consuming.comparisonFrom (h : g.Consuming) (op : CompareOp) (left : Expr) :
    Consumes (g.comparisonFrom op left) := by
  refine consumes_peek.bind fun t => ?_
  split
  case h_4 => exact h.concatenation.bind fun _ => .pure _
  all_goals exact consumes_advance.bind fun _ => h.valueSource.bind fun _ => .pure _

theorem Grammar.Consuming.comparison_startsBy (h : g.Consuming) :
    StartsBy g.concatenation g.comparison := by
  refine ⟨_, rfl, fun left => (consumes_takeIf _).bind fun _ => .ite ?_ ?_⟩
  · exact (consumes_takeIf _).bind fun _ => consumes_isOperand.bind fun _ => .pure _
  · refine consumes_takeNegation.bind fun _ => consumes_peek.bind fun t => ?_
    split
    · exact consumes_advance.bind fun _ => h.concatenation.bind fun _ =>
        (consumes_expectKeyword _).bind fun _ => h.concatenation.bind fun _ => .pure _
    · exact consumes_advance.bind fun _ => h.concatenation.bind fun _ => .pure _
    · exact consumes_advance.bind fun _ => h.valueSource.bind fun _ => .pure _
    · refine consumes_takeOperator.bind fun op? => ?_
      cases op? with
      | some op => exact h.comparisonFrom op left
      | none => exact .pure _

theorem Grammar.Consuming.comparison (h : g.Consuming) : Consumes g.comparison :=
  h.comparison_startsBy.consumes h.concatenation

/-- What a run of the level of negations did: a `NOT` stood in front of a condition. -/
inductive NegationRun (g : Grammar) : List Lexeme → Expr → List Lexeme → Prop
  | not (p : Nat) {ls rest : List Lexeme} {e : Expr} : NegationRun g ls e rest →
    NegationRun g (⟨.keyword .not, p⟩ :: ls) (.not e) rest
  | comparison {ls rest : List Lexeme} {e : Expr} : g.comparison ls = .ok (e, rest) →
    NegationRun g ls e rest

theorem negationRun {ls rest : List Lexeme} {e : Expr} (run : g.negation ls = .ok (e, rest)) :
    NegationRun g ls e rest := by
  fun_induction g.negation ls generalizing e rest with
  | case1 p ls ih =>
    obtain ⟨e, inner, rfl⟩ := wrapped_eq_ok run
    exact .not p (ih inner)
  | case2 => exact .comparison run

theorem Grammar.Consuming.negation (h : g.Consuming) : Consumes g.negation where
  leaves run := by
    replace run := negationRun run
    induction run with
    | not _ _ ih => exact ih.trans (List.suffix_cons _ _)
    | comparison run => exact h.comparison.leaves run
  fails {ls e} run := by
    fun_induction g.negation ls with
    | case1 p ls ih => exact fails_behind (ih (wrapped_eq_error run))
    | case2 => exact h.comparison.fails run

theorem Grammar.Consuming.conjunction (h : g.Consuming) : Consumes g.conjunction :=
  h.negation.chain consumes_takeOperator

theorem Grammar.Consuming.disjunction (h : g.Consuming) : Consumes g.disjunction :=
  h.conjunction.chain consumes_takeOperator

/-! ## Sources -/

theorem Grammar.Consuming.valueRows (h : g.Consuming) : Consumes g.valueRows :=
  h.expressions.inParens.separatedBy _

theorem consumes_sourceColumns (aliasName : Option String) : Consumes (sourceColumns aliasName) := by
  cases aliasName with
  | none => exact .pure _
  | some name => exact (consumes_atSymbol _).bind fun _ => .ite consumes_columnNames (.pure _)

theorem consumes_valuesSource (rows : List (List Expr)) : Consumes (valuesSource rows) :=
  (consumes_takeAlias _).bind fun _ => (consumes_sourceColumns _).bind fun _ => .pure _

theorem consumes_subquerySource (q : Query) : Consumes (subquerySource q) :=
  (consumes_takeAlias _).bind fun _ => (consumes_sourceColumns _).bind fun _ => .pure _

theorem Grammar.Consuming.parenthesizedSource (h : g.Consuming) : Consumes g.parenthesizedSource := by
  have query : Consumes (do
      let q ← g.query
      Parser.expectSymbol .rightParen
      subquerySource q) :=
    h.query.bind fun q => (consumes_expectSymbol _).bind fun _ => consumes_subquerySource q
  have inner : Consumes (do
      let inner ← g.source
      Parser.expectSymbol .rightParen
      return inner) :=
    h.source.bind fun _ => (consumes_expectSymbol _).bind fun _ => .pure _
  refine (consumes_takeIf _).bind fun _ => .ite ?_ ?_
  · exact h.valueRows.bind fun rows => (consumes_expectSymbol _).bind fun _ =>
      consumes_valuesSource rows
  · exact consumes_atQuery.bind fun _ => (consumes_atSymbol _).bind fun _ => .ite query inner

theorem consumes_tableName : Consumes tableName :=
  ((consumes_expectName _).separatedBy _).bind fun _ => .pure _

theorem Grammar.Consuming.sourcePrimary (h : g.Consuming) : Consumes g.sourcePrimary := by
  refine consumes_peek.bind fun t => ?_
  split
  · exact consumes_advance.bind fun _ => (consumes_takeAlias _).bind fun _ => .pure _
  · exact consumes_advance.bind fun _ => (consumes_takeAlias _).bind fun _ => .pure _
  · exact consumes_advance.bind fun _ => h.valueRows.bind fun _ => consumes_valuesSource _
  · exact consumes_advance.bind fun _ => h.parenthesizedSource
  · exact consumes_tableName.bind fun _ => (consumes_takeAlias _).bind fun _ => .pure _
  · exact consumes_tableName.bind fun _ => (consumes_takeAlias _).bind fun _ => .pure _
  · exact consumes_unexpected _

theorem consumes_takeJoinKind : Consumes takeJoinKind? := by
  have outer (kind : JoinKind) : Consumes (takeJoinKind?.outer kind) :=
    consumes_advance.bind fun _ => (consumes_takeIf _).bind fun _ => .pure _
  refine consumes_peek.bind fun t => ?_
  split
  · exact consumes_advance.bind fun _ => .pure _
  · exact outer _
  · exact outer _
  · exact outer _
  · exact .pure _
  · exact .pure _

theorem Grammar.Consuming.joinMatch (h : g.Consuming) (kind : JoinKind) :
    Consumes (g.joinMatch kind) := by
  refine (consumes_takeIf _).bind fun _ => .ite (h.expression.bind fun _ => .pure _) ?_
  refine (consumes_takeIf _).bind fun _ => .ite (consumes_columnNames.bind fun _ => .pure _) ?_
  exact .ite (.pure _) (consumes_unexpected _)

theorem Grammar.Consuming.joinFrom (h : g.Consuming) (kind : JoinKind) (natural : Bool)
    (left : Source) : Consumes (g.joinFrom kind natural left) := by
  have rest (right : Source) (matching : JoinMatch) :
      Consumes (Pure.pure (.join kind left right matching) : Parser Source) := .pure _
  refine (consumes_expectKeyword _).bind fun _ => h.sourcePrimary.bind fun right => .ite ?_ (.ite ?_ ?_)
  · exact Consumes.bind (.pure _) (rest right)
  · exact Consumes.bind (.pure _) (rest right)
  · exact (h.joinMatch kind).bind (rest right)

theorem Grammar.Consuming.joinsFrom (h : g.Consuming) (bound : Nat) (left : Source) :
    Consumes (g.joinsFrom bound left) := by
  induction bound generalizing left with
  | zero => exact .pure _
  | succ bound ih =>
    refine (consumes_takeIf _).bind fun _ => .ite ((h.joinFrom _ _ _).bind fun _ => ih _) ?_
    refine (consumes_takeIf _).bind fun natural => consumes_takeJoinKind.bind fun kind? => ?_
    cases kind? with
    | some kind => exact (h.joinFrom _ _ _).bind fun _ => ih _
    | none => exact .ite (consumes_unexpected _) (.pure _)

theorem Grammar.Consuming.joinedSource (h : g.Consuming) : Consumes g.joinedSource :=
  h.sourcePrimary.bind fun _ => consumes_remaining.bind fun n => h.joinsFrom n _

/-! ## Queries -/

theorem consumes_takeDistinct : Consumes takeDistinct :=
  (consumes_takeIf _).bind fun _ => .ite (.pure _) ((consumes_takeIf _).bind fun _ => .pure _)

theorem consumes_takeAll : Consumes takeAll :=
  (consumes_takeIf _).bind fun _ => .ite (.pure _) ((consumes_takeIf _).bind fun _ => .pure _)

theorem Grammar.Consuming.selectBody_startsBy (h : g.Consuming) :
    StartsBy (Parser.expectKeyword .select) g.selectBody := by
  have field : Consumes g.field := h.expression.bind fun _ => (consumes_takeAlias _).bind fun _ => .pure _
  refine ⟨_, rfl, fun _ => consumes_takeDistinct.bind fun _ =>
    (field.separatedBy _).bind fun _ => ((h.source.separatedBy _).afterKeyword _).bind fun _ =>
    (h.expression.afterKeyword _).bind fun _ => Consumes.bind (Consumes.afterKeyword _ ?_) fun _ =>
    (h.expression.afterKeyword _).bind fun _ => .pure _⟩
  exact (consumes_expectKeyword _).bind fun _ => h.expressions

theorem Grammar.Consuming.selectBody (h : g.Consuming) : Consumes g.selectBody :=
  h.selectBody_startsBy.consumes (consumes_expectKeyword _)

theorem Grammar.Consuming.bodyPrimary (h : g.Consuming) : Consumes g.bodyPrimary :=
  (consumes_atSymbol _).bind fun _ => .ite (h.query.inParens.bind fun _ => .pure _) h.selectBody

theorem consumes_takeSetOp (op? : Token → Option SetOp) : Consumes (takeSetOp? op?) := by
  refine consumes_takeOperator.bind fun op => ?_
  cases op with
  | some op => exact consumes_takeAll.bind fun _ => .pure _
  | none => exact .pure _

theorem Grammar.Consuming.body (h : g.Consuming) : Consumes g.body :=
  (h.bodyPrimary.chain (consumes_takeSetOp _)).chain (consumes_takeSetOp _)

theorem Grammar.Consuming.inlineDefs (h : g.Consuming) : Consumes g.inlineDefs := by
  have rest (name : String) (columns : List String) : Consumes (do
      Parser.expectKeyword .as
      return InlineDef.mk name columns (← Parser.inParens g.query)) :=
    (consumes_expectKeyword _).bind fun _ => h.query.inParens.bind fun _ => .pure _
  have item : Consumes g.inlineDef :=
    (consumes_expectName _).bind fun name => (consumes_atSymbol _).bind fun _ =>
      .ite (consumes_columnNames.bind (rest name)) (Consumes.bind (.pure _) (rest name))
  exact (consumes_takeIf _).bind fun _ =>
    .ite ((consumes_takeIf _).bind fun _ => (item.separatedBy _).bind fun _ => .pure _) (.pure _)

theorem Grammar.Consuming.offset (h : g.Consuming) : Consumes g.offset := by
  refine Consumes.afterKeyword _ (h.expression.bind fun _ => (consumes_takeIf _).bind fun _ => ?_)
  exact .ite ((consumes_takeIf _).bind fun _ => .pure _) (.pure _)

theorem consumes_takeTies : Consumes takeTies := by
  refine consumes_peek.bind fun t => consumes_peekSecond.bind fun u => .ite ?_ (.pure _)
  exact consumes_advance.bind fun _ => consumes_advance.bind fun _ => .pure _

theorem Grammar.Consuming.limit (h : g.Consuming) : Consumes g.limit := by
  refine (consumes_takeIf _).bind fun _ => .ite (h.expression.bind fun _ => ?_) (.pure _)
  exact (consumes_takeIf _).bind fun _ => consumes_takeTies.bind fun _ => .pure _

theorem Grammar.Consuming.fullQuery_startsBy (h : g.Consuming) :
    ∃ f, g.fullQuery = g.inlineDefs >>= f ∧ ∀ tables, StartsBy g.body (f tables) := by
  have rest (tables : Bool × List InlineDef) (body : Body) (order : List OrderItem) (limit : Limit)
      (offset : Option Expr) :
      Consumes (Pure.pure (Query.mk tables.1 tables.2 body order offset limit) : Parser Query) :=
    .pure _
  refine ⟨_, rfl, fun tables => ⟨_, rfl, fun body => h.order.bind fun order =>
    h.offset.bind fun early => h.limit.bind fun limit => .ite ?_ ?_⟩⟩
  · exact Consumes.bind (.pure _) (rest tables body order limit)
  · exact h.offset.bind (rest tables body order limit)

theorem Grammar.Consuming.fullQuery (h : g.Consuming) : Consumes g.fullQuery := by
  obtain ⟨f, eq, after⟩ := h.fullQuery_startsBy
  rw [eq]
  exact h.inlineDefs.bind fun tables => (after tables).consumes h.body

/-! ## Texts of queries -/

theorem consumes_expectEnding : Consumes Parser.expectEnding := by
  refine consumes_peek.bind fun t => ?_
  split
  · exact consumes_advance
  · exact consumes_unexpected _

theorem Grammar.Consuming.statement (h : g.Consuming) : Consumes g.statement :=
  h.query.bind fun _ => (consumes_takeIf _).bind fun _ => consumes_expectEnding.bind fun _ => .pure _

theorem consumes_skipSemicolons (bound : Nat) : Consumes (skipSemicolons bound) := by
  induction bound with
  | zero => exact .pure _
  | succ bound ih => exact (consumes_takeIf _).bind fun _ => .ite ih (.pure _)

theorem Grammar.Consuming.statements (h : g.Consuming) (bound : Nat) : Consumes (g.statements bound) := by
  induction bound with
  | zero => exact .pure _
  | succ bound ih =>
    refine consumes_remaining.bind fun n => (consumes_skipSemicolons n).bind fun _ =>
      consumes_peek.bind fun t => ?_
    split
    · exact .pure _
    · refine h.query.bind fun q => consumes_peek.bind fun t => ?_
      split
      · exact .pure _
      · exact (consumes_expectSymbol _).bind fun _ => ih.bind fun _ => .pure _

/-! ## Depth -/

theorem consuming_ofDepth (depth : Nat) : (Grammar.ofDepth depth).Consuming := by
  induction depth with
  | zero => exact ⟨consumes_unexpected _, consumes_unexpected _, consumes_unexpected _⟩
  | succ depth ih => exact ⟨ih.disjunction, ih.fullQuery, ih.joinedSource⟩

end

end TableQuery.Language
