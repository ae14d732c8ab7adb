import TableQuery.Language.Grammar
import TableQuery.Proofs.Syntax.Parsing

/-!
# How expressions are read

What each rule of the grammar takes, for any grammar of the expressions below. An operator is left
alone by an operand that is read at a tighter level.
-/

namespace TableQuery.Language

open Language.Grammar

/-- The levels of operators, from the loosest to the tightest. -/
inductive Level where
  | disjunction
  | conjunction
  | negation
  | comparison
  | concatenation
  | sum
  | term
  | unary
  deriving DecidableEq, Repr

/-- How tightly the operators of a level bind. -/
def Level.rank : Level → Nat
  | disjunction => 1
  | conjunction => 2
  | negation => 3
  | comparison => 4
  | concatenation => 5
  | sum => 6
  | term => 7
  | unary => 8

/-- The parser of a level. -/
def Grammar.at (g : Grammar) : Level → Parser Expr
  | .disjunction => g.disjunction
  | .conjunction => g.conjunction
  | .negation => g.negation
  | .comparison => g.comparison
  | .concatenation => g.concatenation
  | .sum => g.sum
  | .term => g.term
  | .unary => g.unary

/-- How tightly the operator that comes next binds an expression in front of it: not at all if
there is none. A point, a parenthesis or an assignment would go on with a name, and some words with
a call. -/
def tightness : List Token → Nat
  | .keyword .or :: _ => 1
  | .keyword .and :: _ => 2
  | .keyword .not :: .keyword .between :: _ | .keyword .not :: .keyword .like :: _
  | .keyword .not :: .keyword .in :: _ => 4
  | .keyword .is :: _ | .keyword .between :: _ | .keyword .like :: _ | .keyword .in :: _ => 4
  | .symbol .equal :: _ | .symbol .notEqual :: _ | .symbol .less :: _ | .symbol .lessOrEqual :: _
  | .symbol .greater :: _ | .symbol .greaterOrEqual :: _ => 4
  | .symbol .concat :: _ => 5
  | .symbol .plus :: _ | .symbol .minus :: _ => 6
  | .symbol .asterisk :: _ | .symbol .slash :: _ | .symbol .percent :: _ => 7
  | .symbol .dot :: _ | .symbol .leftParen :: _ | .symbol .assign :: _ => 8
  | .identifier name :: _ =>
    if Text.sameIgnoringCase name "OVER" || Text.sameIgnoringCase name "WITHIN" then 8 else 0
  | _ => 0

/-- Whether an operand without `NOT` may start with the token. -/
def Token.startsOperand : Token → Bool
  | .integer _ | .float _ | .text _ | .variable _ | .identifier _ | .quoted _ => true
  | .keyword .true | .keyword .false | .keyword .unknown | .keyword .null | .keyword .exists
  | .keyword .case => true
  | .symbol .asterisk | .symbol .leftParen | .symbol .plus | .symbol .minus => true
  | _ => false

/-! ## Where operands stop -/

section

variable {rest : List Token}

/-- A token that binds alike whatever follows it. -/
theorem tightness_ahead {t : Token} {n : Nat} (first : ahead rest = t) (last : t ≠ .ending)
    (token : ∀ r, tightness (t :: r) = n) : tightness rest = n := by
  cases rest with
  | nil => exact absurd first.symm last
  | cons t' rest =>
    obtain rfl : t' = t := first
    exact token rest

/-- A token that would always bind with some tightness does not come next. -/
theorem ahead_ne {t : Token} {n : Nat} (h : tightness rest ≠ n)
    (token : ∀ r, tightness (t :: r) = n) (last : t ≠ .ending) : ahead rest ≠ t :=
  fun first => h (tightness_ahead first last token)

theorem isKeyword_ahead {k : Keyword} {n : Nat} (h : tightness rest ≠ n)
    (token : ∀ r, tightness (.keyword k :: r) = n) : (ahead rest).isKeyword k = false := by
  rw [← Bool.not_eq_true, Token.isKeyword_iff]
  exact ahead_ne h token (by simp)

theorem isSymbol_ahead {s : Symbol} {n : Nat} (h : tightness rest ≠ n)
    (token : ∀ r, tightness (.symbol s :: r) = n) : (ahead rest).isSymbol s = false := by
  rw [← Bool.not_eq_true, Token.isSymbol_iff]
  exact ahead_ne h token (by simp)

theorem factorOp?_ahead (h : tightness rest ≠ 7) : factorOp? (ahead rest) = none := by
  unfold factorOp?
  split
  all_goals first | rfl | exact absurd ‹_› (ahead_ne h (fun _ => rfl) (by simp))

theorem termOp?_ahead (h : tightness rest ≠ 6) : termOp? (ahead rest) = none := by
  unfold termOp?
  split
  all_goals first | rfl | exact absurd ‹_› (ahead_ne h (fun _ => rfl) (by simp))

theorem compareOp?_ahead (h : tightness rest ≠ 4) : compareOp? (ahead rest) = none := by
  unfold compareOp?
  split
  all_goals first | rfl | exact absurd ‹_› (ahead_ne h (fun _ => rfl) (by simp))

theorem logicOp?_ahead {k : Keyword} {op : LogicOp} {n : Nat} (h : tightness rest ≠ n)
    (token : ∀ r, tightness (.keyword k :: r) = n) : logicOp? k op (ahead rest) = none := by
  rw [logicOp?, isKeyword_ahead h token]
  rfl

/-- No negated predicate comes next. -/
theorem negation_ahead (h : tightness rest ≠ 4) (first : ahead rest = .keyword .not) {k : Keyword}
    (second : ahead rest.tail = .keyword k) : k ≠ .between ∧ k ≠ .like ∧ k ≠ .in := by
  rcases rest with _ | ⟨t, _ | ⟨u, rest⟩⟩
  · cases first
  · cases second
  · obtain rfl : t = .keyword .not := first
    obtain rfl : u = .keyword k := second
    refine ⟨?_, ?_, ?_⟩ <;> rintro rfl <;> exact h rfl

end

/-! ## Atoms -/

section

variable {g : Grammar} {ts us vs rest : List Token} {e : Expr} {t : Token}

theorem takes_literal {l : Literal} (h : literal? t = some l) :
    Takes g.primary [t] (.literal l) rest := by
  have seen : literal? (ahead ([t] ++ rest)) = some l := h
  refine Takes.bind_peek ?_
  simp only [seen]
  exact takes_advance.bind (Takes.pure _ rest)

theorem takes_allColumns : Takes g.primary [.symbol .asterisk] .allColumns rest :=
  Takes.bind_peek (takes_advance.bind (Takes.pure _ rest))

theorem takes_column (name : String) (h : tightness rest ≠ 8) :
    Takes g.primary [.identifier name] (.column none name) rest := by
  refine Takes.bind_peek (takes_advance.bind_nil (Takes.bind_atSymbol ?_))
  rw [List.nil_append, isSymbol_ahead h fun _ => rfl]
  exact Takes.bind_none (takes_takeIf_not (isSymbol_ahead h fun _ => rfl)) (Takes.pure _ rest)

/-- A column of a table. -/
theorem takes_tableColumn (table name : String) :
    Takes g.primary [.identifier table, .symbol .dot, .identifier name]
      (.column (some table) name) rest := by
  refine Takes.bind_peek (Takes.bind_one takes_advance
    (Takes.bind_atSymbol ?_))
  refine Takes.bind_one (takes_symbol .dot) ?_
  refine Takes.bind_none (takes_takeIf_not rfl) ?_
  exact (takes_expectName _ name).map

/-- All columns of a table. -/
theorem takes_tableColumns (table : String) :
    Takes g.primary [.identifier table, .symbol .dot, .symbol .asterisk] (.tableColumns table)
      rest := by
  refine Takes.bind_peek (Takes.bind_one takes_advance
    (Takes.bind_atSymbol ?_))
  refine Takes.bind_one (takes_symbol .dot) ?_
  exact Takes.bind_one (takes_symbol .asterisk) (Takes.pure _ rest)

theorem takes_variable (name : String) (h : tightness rest ≠ 8) :
    Takes g.primary [.variable name] (.variable name) rest := by
  refine Takes.bind_peek (takes_advance.bind_nil ?_)
  exact Takes.bind_none (takes_takeIf_not (isSymbol_ahead h fun _ => rfl)) (Takes.pure _ rest)

theorem takes_assign (name : String) (h : Takes g.expression ts e rest) :
    Takes g.primary (.variable name :: .symbol .assign :: ts) (.assign name e) rest := by
  refine Takes.bind_peek (Takes.bind_one takes_advance ?_)
  exact Takes.bind_one (takes_symbol .assign) h.map

/-! ## Signs -/

/-- An operand without a sign in front. -/
theorem takes_unary_of_primary (h : Takes g.primary (t :: ts) e rest)
    (unsigned : t ≠ .symbol .minus ∧ t ≠ .symbol .plus) : Takes g.unary (t :: ts) e rest := by
  intro ls rs tokens following
  have read := h ls rs tokens following
  obtain ⟨⟨token, position⟩, ls, rfl, rfl, rfl⟩ := List.map_eq_cons_iff.1 tokens
  rw [← read, List.cons_append]
  unfold Grammar.unary
  split
  all_goals first
    | rfl
    | simp_all

theorem takes_plus (h : Takes g.unary ts e rest) :
    Takes g.unary (.symbol .plus :: ts) (.signed .plus e) rest := by
  intro ls rs tokens following
  obtain ⟨⟨token, position⟩, ls, rfl, rfl, rfl⟩ := List.map_eq_cons_iff.1 tokens
  have read := h ls rs rfl following
  rw [List.cons_append, Grammar.unary, read]
  rfl

/-- A minus sign that is no part of a number. -/
theorem takes_minus (h : Takes g.unary (t :: ts) e rest)
    (number : ∀ i, t ≠ .integer i) (number' : ∀ f, t ≠ .float f) :
    Takes g.unary (.symbol .minus :: t :: ts) (.signed .minus e) rest := by
  intro ls rs tokens following
  obtain ⟨⟨sign, position⟩, more, rfl, rfl, tokens'⟩ := List.map_eq_cons_iff.1 tokens
  obtain ⟨⟨token, position'⟩, ls, rfl, rfl, rfl⟩ := List.map_eq_cons_iff.1 tokens'
  have read := h (⟨token, position'⟩ :: ls) rs rfl following
  rw [List.cons_append] at read
  rw [List.cons_append, List.cons_append, Grammar.unary, read]
  · rfl
  · simp_all
  · simp_all

theorem takes_negative_integer (i : Int64) :
    Takes g.unary [.symbol .minus, .integer i] (.literal (.integer (-i))) rest := by
  intro ls rs tokens following
  obtain ⟨⟨sign, position⟩, more, rfl, rfl, tokens'⟩ := List.map_eq_cons_iff.1 tokens
  obtain ⟨⟨token, position'⟩, rfl, rfl⟩ := List.map_eq_singleton_iff.1 tokens'
  rfl

theorem takes_negative_float (f : Float) :
    Takes g.unary [.symbol .minus, .float f] (.literal (.float (-f))) rest := by
  intro ls rs tokens following
  obtain ⟨⟨sign, position⟩, more, rfl, rfl, tokens'⟩ := List.map_eq_cons_iff.1 tokens
  obtain ⟨⟨token, position'⟩, rfl, rfl⟩ := List.map_eq_singleton_iff.1 tokens'
  rfl

/-! ## Operators -/

theorem takes_concat_of_sum (h : Takes g.sum ts e rest) (stop : tightness rest ≠ 5) :
    Takes g.concatenation ts e rest := by
  have list : TakesList g.sum .concat rest [ts] [e] := .cons h .nil
  exact (takes_separatedBy list (by simp) (ahead_ne stop (fun _ => rfl) (by simp))).bind_nil
    (Takes.pure e rest)

theorem takes_concat {items : List (List Token)} {es : List Expr}
    (list : TakesList g.sum .concat rest items es) (several : 2 ≤ es.length)
    (stop : tightness rest ≠ 5) :
    Takes g.concatenation (separated .concat items) (.concat es) rest := by
  match es, several with
  | e :: e' :: es, _ =>
    exact (takes_separatedBy list (by simp) (ahead_ne stop (fun _ => rfl) (by simp))).bind_nil
      (Takes.pure _ rest)

/-! ## Predicates -/

variable {low high : Expr}

theorem takes_isOperand {l : Literal} (h : literal? t = some l)
    (word : t = .keyword .null ∨ t = .keyword .true ∨ t = .keyword .false ∨ t = .keyword .unknown) :
    Takes isOperand [t] l rest := by
  refine Takes.bind_peek ?_
  rcases word with rfl | rfl | rfl | rfl <;>
  · cases h
    exact Takes.bind_peek (takes_advance.bind (Takes.pure _ rest))

theorem takes_is {l : Literal} (negated : Bool) (h : literal? t = some l)
    (word : t = .keyword .null ∨ t = .keyword .true ∨ t = .keyword .false ∨ t = .keyword .unknown)
    (left : Takes g.concatenation ts e
      (.keyword .is :: (tokenIf negated (.keyword .not) ++ t :: rest))) :
    Takes g.comparison (ts ++ .keyword .is :: (tokenIf negated (.keyword .not) ++ [t]))
      (.is negated e (.literal l)) rest := by
  refine Takes.bind (by simpa using left) (Takes.bind_one (takes_keyword .is) ?_)
  refine Takes.bind (a := negated) ?_ (takes_isOperand h word).bind_pure
  · cases negated with
    | true => exact takes_keyword .not
    | false =>
      refine takes_takeIf_not ?_
      rcases word with rfl | rfl | rfl | rfl <;> rfl

/-- The words of a predicate, which may be negated. -/
theorem takes_negation {k : Keyword} (negated : Bool)
    (word : k = .between ∨ k = .like ∨ k = .in) :
    Takes takeNegation (tokenIf negated (.keyword .not)) negated (.keyword k :: rest) := by
  refine Takes.bind_peek (Takes.bind_peekSecond ?_)
  cases negated <;> rcases word with rfl | rfl | rfl
  all_goals first
    | exact Takes.pure false _
    | exact takes_advance.bind (Takes.pure true _)

theorem takes_like (negated : Bool)
    (left : Takes g.concatenation ts e
      (tokenIf negated (.keyword .not) ++ .keyword .like :: (us ++ rest)))
    (right : Takes g.concatenation us high rest) :
    Takes g.comparison (ts ++ (tokenIf negated (.keyword .not) ++ .keyword .like :: us))
      (.like negated e high) rest := by
  refine Takes.bind (by simpa using left) ?_
  refine Takes.bind_none (takes_takeIf_not (by cases negated <;> rfl)) ?_
  refine Takes.bind (by simpa using takes_negation negated (.inr (.inl rfl))) (Takes.bind_peek ?_)
  exact Takes.bind_one takes_advance right.map

theorem takes_isIn (negated : Bool)
    (left : Takes g.concatenation ts e
      (tokenIf negated (.keyword .not) ++ .keyword .in :: (us ++ rest)))
    (right : Takes g.valueSource us high rest) :
    Takes g.comparison (ts ++ (tokenIf negated (.keyword .not) ++ .keyword .in :: us))
      (.isIn negated e high) rest := by
  refine Takes.bind (by simpa using left) ?_
  refine Takes.bind_none (takes_takeIf_not (by cases negated <;> rfl)) ?_
  refine Takes.bind (by simpa using takes_negation negated (.inr (.inr rfl))) (Takes.bind_peek ?_)
  exact Takes.bind_one takes_advance right.map

theorem takes_between (negated : Bool)
    (left : Takes g.concatenation ts e (tokenIf negated (.keyword .not)
      ++ .keyword .between :: (us ++ .keyword .and :: (vs ++ rest))))
    (lower : Takes g.concatenation us low (.keyword .and :: (vs ++ rest)))
    (upper : Takes g.concatenation vs high rest) :
    Takes g.comparison
      (ts ++ (tokenIf negated (.keyword .not) ++ .keyword .between :: (us ++ .keyword .and :: vs)))
      (.between negated e low high) rest := by
  refine Takes.bind (by simpa using left) ?_
  refine Takes.bind_none (takes_takeIf_not (by cases negated <;> rfl)) ?_
  refine Takes.bind (by simpa using takes_negation negated (.inl rfl)) (Takes.bind_peek ?_)
  refine Takes.bind_one takes_advance (Takes.bind lower ?_)
  exact Takes.bind_one (takes_expectKeyword .and) upper.map

/-- What follows an operator: no predicate word and no negation. -/
theorem takes_comparison_operator {op : CompareOp} 
    (left : Takes g.concatenation ts e (.symbol op.symbol :: (us ++ rest)))
    {b : Expr} (right : Takes (g.comparisonFrom op e) us b rest) :
    Takes g.comparison (ts ++ .symbol op.symbol :: us) b rest := by
  refine Takes.bind (by simpa using left) ?_
  refine Takes.bind_none (takes_takeIf_not rfl) ?_
  refine Takes.bind_none (Takes.bind_peek (Takes.bind_peekSecond (Takes.pure false _))) ?_
  refine Takes.bind_peek (Takes.bind_one (takes_operator (a := op) ?_) ?_)
  · cases op <;> rfl
  · exact right

theorem takes_compare {op : CompareOp}
    (left : Takes g.concatenation ts e (.symbol op.symbol :: (us ++ rest)))
    (right : Takes g.concatenation us high rest)
    (start : (ahead (us ++ rest)).startsOperand = true) :
    Takes g.comparison (ts ++ .symbol op.symbol :: us) (.compare op e high) rest := by
  refine takes_comparison_operator left (Takes.bind_peek ?_)
  split
  case h_4 => exact right.map
  all_goals
    rename_i here
    rw [here] at start
    cases start

theorem takes_any {op : CompareOp}
    (left : Takes g.concatenation ts e (.symbol op.symbol :: .keyword .any :: (us ++ rest)))
    (right : Takes g.valueSource us high rest) :
    Takes g.comparison (ts ++ .symbol op.symbol :: .keyword .any :: us) (.any op e high) rest := by
  refine takes_comparison_operator left (Takes.bind_peek ?_)
  exact Takes.bind_one takes_advance right.map

theorem takes_all {op : CompareOp}
    (left : Takes g.concatenation ts e (.symbol op.symbol :: .keyword .all :: (us ++ rest)))
    (right : Takes g.valueSource us high rest) :
    Takes g.comparison (ts ++ .symbol op.symbol :: .keyword .all :: us) (.all op e high) rest := by
  refine takes_comparison_operator left (Takes.bind_peek ?_)
  exact Takes.bind_one takes_advance right.map

/-- No predicate follows. -/
theorem takes_comparison_of_concat (h : Takes g.concatenation ts e rest) (stop : tightness rest ≠ 4) :
    Takes g.comparison ts e rest := by
  have operator := takes_operator_none (compareOp?_ahead stop)
  refine h.bind_nil ?_
  refine Takes.bind_none (takes_takeIf_not (isKeyword_ahead stop fun _ => rfl)) ?_
  refine Takes.bind_none (a := false) (Takes.bind_peek (Takes.bind_peekSecond ?_)) ?_
  · split
    case h_4 => exact Takes.pure false rest
    all_goals
      have excluded := negation_ahead stop ‹_› ‹_›
      simp at excluded
  · refine Takes.bind_peek ?_
    split
    case h_4 => exact operator.bind_nil (Takes.pure e rest)
    all_goals exact absurd ‹_› (ahead_ne stop (fun _ => rfl) (by simp))

/-! ## Negations -/

theorem takes_not (h : Takes g.negation ts e rest) :
    Takes g.negation (.keyword .not :: ts) (.not e) rest := by
  intro ls rs tokens following
  obtain ⟨⟨token, position⟩, ls, rfl, rfl, rfl⟩ := List.map_eq_cons_iff.1 tokens
  have read := h ls rs rfl following
  rw [List.cons_append, Grammar.negation, read]
  rfl

end

/-! ## First tokens -/

/-- Whether an expression without a sign may start with the token. -/
def Token.startsPrimary (t : Token) : Bool :=
  t.startsOperand && !t.isSymbol .plus && !t.isSymbol .minus

/-- Whether an expression may start with the token. -/
def Token.startsExpression (t : Token) : Bool :=
  t.startsOperand || t.isKeyword .not

section

variable (g : Grammar)

theorem starts_primary : StartsWith g.primary Token.startsPrimary := by
  intro ls e rest run
  obtain ⟨t, mid, peeked, run⟩ := bind_eq_ok.1 run
  rw [peek_eq] at peeked
  obtain ⟨rfl, rfl⟩ : ahead (ls.map Lexeme.token) = t ∧ ls = mid := by simpa using peeked
  by_contra other
  rw [Bool.not_eq_true] at other
  generalize ahead (ls.map Lexeme.token) = t at run other
  cases t with
  | keyword k => cases k <;> first | exact unexpected_ne_ok run | cases other
  | symbol s => cases s <;> first | exact unexpected_ne_ok run | cases other
  | ending => exact unexpected_ne_ok run
  | _ => cases other

theorem starts_unary : StartsWith g.unary Token.startsOperand := by
  intro ls e rest run
  unfold Grammar.unary at run
  split at run
  case h_5 => exact (Bool.and_eq_true_iff.1 (Bool.and_eq_true_iff.1 (starts_primary g _ _ _ run)).1).1
  all_goals rfl

theorem starts_concatenation : StartsWith g.concatenation Token.startsOperand := by
  have term : StartsWith g.term Token.startsOperand := (starts_unary g).bind
  have sum : StartsWith g.sum Token.startsOperand := term.bind
  have list : StartsWith (Parser.separatedBy .concat g.sum) Token.startsOperand := sum.bind
  exact list.bind

theorem starts_comparison : StartsWith g.comparison Token.startsOperand :=
  (starts_concatenation g).bind

/-- A comparison is a condition that no `NOT` stands in front of. -/
theorem negation_of_comparison {ls rest : List Lexeme} {e : Expr}
    (h : g.comparison ls = .ok (e, rest)) : g.negation ls = .ok (e, rest) := by
  have start := starts_comparison g _ _ _ h
  unfold Grammar.negation
  split
  · cases start
  · exact h

theorem starts_negation : StartsWith g.negation Token.startsExpression := by
  intro ls e rest run
  unfold Grammar.negation at run
  split at run
  · rfl
  · exact Bool.or_eq_true_iff.2 (.inl (starts_comparison g _ _ _ run))

theorem starts_disjunction : StartsWith g.disjunction Token.startsExpression := by
  have conjunction : StartsWith g.conjunction Token.startsExpression := (starts_negation g).bind
  exact conjunction.bind

end

theorem starts_expression (depth : Nat) :
    StartsWith (Grammar.ofDepth depth).expression Token.startsExpression := by
  cases depth with
  | zero => exact fun _ _ _ run => absurd run unexpected_ne_ok
  | succ depth => exact starts_disjunction _

end TableQuery.Language
