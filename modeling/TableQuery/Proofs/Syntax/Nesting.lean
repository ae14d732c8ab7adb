import TableQuery.Proofs.Syntax.Reading

/-!
# How nested expressions are read

What stands in parentheses, in a list, in a call or between the words of a `CASE` is read by the
grammar of what is nested one level less. Such an expression is always in front of a word or a
symbol that is no operator.
-/

namespace TableQuery.Language

open Language.Grammar

/-- The grammar below reads the tokens as the expression wherever no operator follows. -/
def Grammar.Reads (g : Grammar) (ts : List Token) (e : Expr) : Prop :=
  ∀ rest, tightness rest = 0 → Takes g.expression ts e rest

/-- Whether a query may end in front of the token. -/
def Token.endsQuery : Token → Bool
  | .symbol .rightParen | .symbol .semicolon | .ending => true
  | _ => false

/-- The grammar below reads the tokens as a query wherever one may end. -/
def Grammar.ReadsQuery (g : Grammar) (ts : List Token) (q : Query) : Prop :=
  ∀ rest, (ahead rest).endsQuery = true → Takes g.query ts q rest

/-- Whether a query may start with the token, also one whose first operand is in parentheses. -/
def Token.opensQuery (t : Token) : Bool :=
  t.startsQuery || t.isSymbol .leftParen

/-- Whether an operand of a set operation may start with the token. -/
def Token.startsBody (t : Token) : Bool :=
  t.isKeyword .select || t.isSymbol .leftParen

/-- The expressions of the grammar below start like expressions, and its queries like queries. -/
structure Grammar.Starts (g : Grammar) : Prop where
  expression : StartsWith g.expression Token.startsExpression
  query : StartsWith g.query Token.opensQuery

section

variable {g : Grammar} {ts us rest : List Token} {e : Expr} {es : List Expr} {q : Query}
  {items : List (List Token)}

theorem Token.not_startsQuery {t : Token} (h : t.startsExpression = true) : t.startsQuery = false := by
  cases t with
  | keyword k => cases k <;> first | rfl | cases h
  | _ => rfl

theorem Token.not_when {t : Token} (h : t.startsExpression = true) : t.isKeyword .when = false := by
  cases t with
  | keyword k => cases k <;> first | rfl | cases h
  | _ => rfl

/-! ## Lists -/

/-- Expressions with commas between them. -/
theorem takes_expressions (list : List.Forall₂ g.Reads items es) (nonempty : es ≠ [])
    (stop : tightness rest = 0) (comma : ahead rest ≠ .symbol .comma) :
    Takes g.expressions (commaTokens items) es rest := by
  refine takes_separatedBy (TakesList.of_each (list.imp fun ts e reads r follow => ?_)) nonempty comma
  refine reads r ?_
  rcases follow with rfl | follow
  · exact stop
  · exact tightness_ahead follow (by simp) fun _ => rfl

/-! ## Parentheses -/

theorem takes_parens (starts : g.Starts) (h : g.Reads ts e) :
    Takes g.parenthesized (parenTokens ts) (.parens e) rest := by
  have list : List.Forall₂ g.Reads [ts] [e] := .cons h .nil
  refine Takes.inParens (Takes.bind_atQuery ?_)
  rw [Token.not_startsQuery (starts.expression.ahead (h _ rfl))]
  exact (takes_expressions list (by simp) rfl (by rintro ⟨⟩)).bind_nil (Takes.pure _ _)

theorem takes_rowValue (starts : g.Starts) (list : List.Forall₂ g.Reads items es)
    (several : 2 ≤ es.length) :
    Takes g.parenthesized (parenTokens (commaTokens items)) (.rowValue es) rest := by
  have nonempty : es ≠ [] := by rintro rfl; simp at several
  have expressions : Takes g.expressions (commaTokens items) es (.symbol .rightParen :: rest) :=
    takes_expressions list nonempty rfl (by rintro ⟨⟩)
  refine Takes.inParens (Takes.bind_atQuery ?_)
  rw [Token.not_startsQuery (starts.expression.bind.ahead expressions)]
  match es, several with
  | e :: e' :: es, _ => exact expressions.bind_nil (Takes.pure _ _)

theorem takes_valueList (starts : g.Starts) (list : List.Forall₂ g.Reads items es)
    (nonempty : es ≠ []) :
    Takes g.valueSource (parenTokens (commaTokens items)) (.valueList es) rest := by
  have expressions : Takes g.expressions (commaTokens items) es (.symbol .rightParen :: rest) :=
    takes_expressions list nonempty rfl (by rintro ⟨⟩)
  refine Takes.inParens (Takes.bind_atQuery ?_)
  rw [Token.not_startsQuery (starts.expression.bind.ahead expressions)]
  exact expressions.map

theorem takes_primary_parens (h : Takes g.parenthesized (.symbol .leftParen :: ts) e rest) :
    Takes g.primary (.symbol .leftParen :: ts) e rest :=
  Takes.bind_peek h

theorem takes_subquery (h : g.ReadsQuery ts q)
    (start : (ahead (ts ++ .symbol .rightParen :: rest)).startsQuery = true) :
    Takes g.parenthesized (parenTokens ts) (.subquery q) rest := by
  refine Takes.inParens (Takes.bind_atQuery ?_)
  rw [start]
  exact (h _ rfl).map

theorem takes_valueSubquery (h : g.ReadsQuery ts q)
    (start : (ahead (ts ++ .symbol .rightParen :: rest)).startsQuery = true) :
    Takes g.valueSource (parenTokens ts) (.subquery q) rest := by
  refine Takes.inParens (Takes.bind_atQuery ?_)
  rw [start]
  exact (h _ rfl).map

theorem takes_existsIn (h : g.ReadsQuery ts q) :
    Takes g.primary (.keyword .exists :: parenTokens ts) (.existsIn q) rest := by
  refine Takes.bind_peek (Takes.bind_one takes_advance ?_)
  exact (Takes.inParens (h _ rfl)).map

/-! ## Case distinctions -/

/-- The grammar below reads both parts of each branch. -/
def Grammar.ReadsBranches (g : Grammar) : List Branch → Prop
  | [] => True
  | .mk condition result :: branches =>
    g.Reads condition.tokens condition ∧ g.Reads result.tokens result ∧ g.ReadsBranches branches

/-- The grammar below reads the expression, if there is one. -/
def Grammar.ReadsOption (g : Grammar) (clause : Option Expr) : Prop :=
  ∀ e ∈ clause, g.Reads e.tokens e

variable {branches : List Branch} {operand otherwise clause : Option Expr}

theorem length_le_branchTokens (branches : List Branch) :
    branches.length ≤ (branchTokens branches).length := by
  induction branches with
  | nil => exact Nat.le_refl _
  | cons branch branches ih =>
    obtain ⟨condition, result⟩ := branch
    simp only [branchTokens, List.length_cons, List.length_append]
    omega

theorem tightness_branches (stop : tightness rest = 0) :
    tightness (branchTokens branches ++ rest) = 0 := by
  rcases branches with _ | ⟨⟨condition, result⟩, branches⟩
  · exact stop
  · rw [branchTokens]
    rfl

theorem takes_branches (h : g.ReadsBranches branches) (stop : tightness rest = 0)
    (other : (ahead rest).isKeyword .when = false) {bound : Nat} (enough : branches.length ≤ bound) :
    Takes (g.branches bound) (branchTokens branches) branches rest := by
  induction branches generalizing bound with
  | nil =>
    cases bound with
    | zero => exact Takes.pure [] rest
    | succ bound => exact Takes.bind_none (takes_takeIf_not other) (Takes.pure [] rest)
  | cons branch branches ih =>
    obtain ⟨condition, result⟩ := branch
    obtain ⟨readsCondition, readsResult, more⟩ := h
    cases bound with
    | zero => simp at enough
    | succ bound =>
      rw [branchTokens]
      refine Takes.bind_one (takes_keyword .when) ?_
      refine Takes.bind (readsCondition _ rfl) ?_
      refine Takes.bind_one (takes_expectKeyword .then) ?_
      refine Takes.bind (readsResult _ (tightness_branches stop)) ?_
      exact (ih more (Nat.le_of_succ_le_succ enough)).map

theorem takes_afterKeyword {k : Keyword} (h : g.ReadsOption clause) (stop : tightness rest = 0)
    (other : (ahead rest).isKeyword k = false) :
    Takes (Parser.afterKeyword? k g.expression) (clauseTokens [.keyword k] clause) clause rest := by
  cases clause with
  | none => exact takes_afterKeyword_none other
  | some e => exact Takes.afterKeyword (h e rfl rest stop)

/-- The rest of a `CASE` expression, behind its operand. -/
def Grammar.caseEnd (g : Grammar) (operand : Option Expr) : Parser Expr := do
  let branches ← g.branches (← Parser.remaining)
  if branches.isEmpty then Parser.unexpected "WHEN"
  let otherwise ← Parser.afterKeyword? .else g.expression
  Parser.expectKeyword .end
  return .case operand branches otherwise

theorem takes_caseEnd (readsBranches : g.ReadsBranches branches) (nonempty : branches ≠ [])
    (readsOtherwise : g.ReadsOption otherwise) :
    Takes (g.caseEnd operand)
      (branchTokens branches ++ (clauseTokens [.keyword .else] otherwise ++ [.keyword .end]))
      (.case operand branches otherwise) rest := by
  have next : tightness (clauseTokens [.keyword .else] otherwise ++ .keyword .end :: rest) = 0 := by
    cases otherwise <;> rfl
  have other : (ahead (clauseTokens [.keyword .else] otherwise ++ .keyword .end :: rest)).isKeyword
      .when = false := by
    cases otherwise <;> rfl
  refine Takes.bind_remaining fun n enough => ?_
  have count := length_le_branchTokens branches
  simp only [List.length_append] at enough
  refine Takes.bind (takes_branches readsBranches (by simpa using next) (by simpa using other)
    (by omega)) ?_
  obtain ⟨branch, branches, rfl⟩ := List.exists_cons_of_ne_nil nonempty
  refine Takes.bind (takes_afterKeyword readsOtherwise rfl rfl) ?_
  exact Takes.bind_one (takes_expectKeyword .end) (Takes.pure _ rest)

theorem takes_case (starts : g.Starts) (readsOperand : g.ReadsOption operand)
    (readsBranches : g.ReadsBranches branches) (nonempty : branches ≠ [])
    (readsOtherwise : g.ReadsOption otherwise) :
    Takes g.primary (Expr.case operand branches otherwise).tokens
      (.case operand branches otherwise) rest := by
  have branchesEnd : Takes (g.caseEnd operand) _ _ rest :=
    takes_caseEnd readsBranches nonempty readsOtherwise
  obtain ⟨⟨condition, result⟩, more, split⟩ := List.exists_cons_of_ne_nil nonempty
  rw [Expr.tokens]
  refine Takes.bind_peek (Takes.bind_one takes_advance ?_)
  refine Takes.bind_atKeyword ?_
  cases operand with
  | none =>
    rw [split] at branchesEnd ⊢
    exact Takes.bind_none (Takes.pure none _) branchesEnd
  | some e =>
    have stop : tightness (branchTokens branches
        ++ (clauseTokens [.keyword .else] otherwise ++ [.keyword .end]) ++ rest) = 0 := by
      rw [split, branchTokens]
      rfl
    have took := readsOperand e rfl _ stop
    have start := Token.not_when (starts.expression.ahead took)
    rw [← List.append_assoc] at start
    have start' : (ahead (clauseTokens [] (some e) ++ (branchTokens branches
        ++ (clauseTokens [.keyword .else] otherwise ++ [.keyword .end])) ++ rest)).isKeyword .when
        = false := start
    rw [start']
    exact Takes.bind took.map branchesEnd

/-! ## Calls -/

/-- What a call is, which its name and `DISTINCT` decide unless a window follows. -/
def Grammar.callResult (g : Grammar) (name : String) (distinct : Bool) (args : List Expr)
    (order : List OrderItem) : Parser Expr := do
  if ← Parser.takeWord "OVER" then g.windowFrom name distinct args
  else if joiningNames.contains name then return .listAggregate name distinct args order
  else if distinct || (Aggregate.ofName? name).isSome then return .aggregate name distinct args
  else return .call name args

/-- The rest of a call, behind its arguments. -/
def Grammar.callEnd (g : Grammar) (name : String) (distinct : Bool) (args : List Expr)
    (order : List OrderItem) : Parser Expr := do
  let order ←
    if name == "LISTAGG" then
      if ← Parser.takeWord "WITHIN" then
        Parser.expectKeyword .group
        Parser.inParens g.order
      else
        pure order
    else
      pure order
  g.callResult name distinct args order

/-- What follows the arguments of a call, from its closing parenthesis on unless it has options. -/
def Grammar.callClose (g : Grammar) (name : String) (distinct : Bool) (args : List Expr) :
    Parser Expr := do
  let (order, separator) ←
    if name == "GROUP_CONCAT" then g.concatOptions else pure ([], [])
  Parser.expectSymbol .rightParen
  g.callEnd name distinct (args ++ separator) order

variable {name : String} {args : List Expr} {distinct : Bool}

theorem takes_callClose (h : Takes (g.callEnd name distinct args []) us e rest) :
    Takes (g.callClose name distinct args) (.symbol .rightParen :: us) e rest := by
  have close : Takes (do
      Parser.expectSymbol .rightParen
      g.callEnd name distinct (args ++ []) []) (.symbol .rightParen :: us) e rest := by
    rw [List.append_nil]
    exact Takes.bind_one (takes_expectSymbol .rightParen) h
  unfold Grammar.callClose
  cases name == "GROUP_CONCAT" with
  | false => exact Takes.bind_none (Takes.pure _ _) close
  | true =>
    refine Takes.bind_none (a := ([], [])) ?_ close
    refine Takes.bind_none (Takes.bind_none (takes_takeIf_not rfl) (Takes.pure [] _)) ?_
    exact Takes.bind_none (takes_takeIf_not rfl) (Takes.pure _ _)

theorem Token.not_distinct {t : Token} (h : t.startsExpression = true) :
    t.isKeyword .distinct = false ∧ t.isSymbol .rightParen = false := by
  cases t with
  | keyword k => cases k <;> first | exact ⟨rfl, rfl⟩ | cases h
  | symbol s => cases s <;> first | exact ⟨rfl, rfl⟩ | cases h
  | _ => exact ⟨rfl, rfl⟩

/-- A call, behind its name, given what its arguments and the rest of it are. -/
theorem takes_callFrom_of (upper : Text.upper name = name) (h : Takes (do
      let args ← if ← Parser.atSymbol .rightParen then pure [] else g.expressions
      g.callClose name distinct args) us e rest)
    (other : (ahead (us ++ rest)).isKeyword .distinct = false) :
    Takes (g.callFrom name)
      (.symbol .leftParen :: (tokenIf distinct (.keyword .distinct) ++ us)) e rest := by
  unfold Grammar.callFrom
  rw [upper]
  refine Takes.bind_one (takes_expectSymbol .leftParen) (Takes.bind (a := distinct) ?_ h)
  cases distinct with
  | true => exact takes_keyword .distinct
  | false => exact takes_takeIf_not other

/-- The arguments of a call, and the rest of it. -/
theorem takes_callArguments (starts : g.Starts) (list : List.Forall₂ g.Reads items args)
    (nonempty : args ≠ []) (close : Takes (g.callClose name distinct args) us e rest)
    (stop : tightness (us ++ rest) = 0) (comma : ahead (us ++ rest) ≠ .symbol .comma) :
    Takes (do
      let args ← if ← Parser.atSymbol .rightParen then pure [] else g.expressions
      g.callClose name distinct args) (commaTokens items ++ us) e rest ∧
    (ahead (commaTokens items ++ us ++ rest)).isKeyword .distinct = false := by
  have expressions : Takes g.expressions _ _ (us ++ rest) :=
    takes_expressions list nonempty stop comma
  have start := Token.not_distinct (starts.expression.bind.ahead expressions)
  rw [← List.append_assoc] at start
  refine ⟨Takes.bind_atSymbol ?_, start.1⟩
  rw [start.2]
  exact Takes.bind expressions close

/-- A call, behind its name. -/
theorem takes_callFrom (starts : g.Starts) (upper : Text.upper name = name)
    (list : List.Forall₂ g.Reads items args) (h : Takes (g.callEnd name distinct args []) us e rest) :
    Takes (g.callFrom name)
      (parenTokens (tokenIf distinct (.keyword .distinct) ++ commaTokens items) ++ us) e rest := by
  have close := takes_callClose h
  have takesArgs : Takes (do
      let args ← if ← Parser.atSymbol .rightParen then pure [] else g.expressions
      g.callClose name distinct args) (commaTokens items ++ .symbol .rightParen :: us) e rest ∧
      (ahead (commaTokens items ++ .symbol .rightParen :: us ++ rest)).isKeyword .distinct = false := by
    cases list with
    | nil => exact ⟨Takes.bind_atSymbol (Takes.bind_none (Takes.pure [] _) close), rfl⟩
    | cons head tail =>
      exact takes_callArguments starts (.cons head tail) (List.cons_ne_nil _ _) close rfl
        (by rintro ⟨⟩)
  have tokens : parenTokens (tokenIf distinct (.keyword .distinct) ++ commaTokens items) ++ us =
      .symbol .leftParen :: (tokenIf distinct (.keyword .distinct)
        ++ (commaTokens items ++ .symbol .rightParen :: us)) := by
    simp [parenTokens]
  rw [tokens]
  exact takes_callFrom_of upper takesArgs.1 takesArgs.2

/-- A name in front of a parenthesis is called. -/
theorem takes_primary_call (h : Takes (g.callFrom name) (.symbol .leftParen :: ts) e rest) :
    Takes g.primary (.identifier name :: .symbol .leftParen :: ts) e rest :=
  Takes.bind_peek (Takes.bind_one takes_advance (Takes.bind_atSymbol h))

theorem isWord_ahead {word : String} (h : tightness rest ≠ 8) (words : word = "OVER" ∨ word = "WITHIN") :
    (ahead rest).isWord word = false := by
  rw [← Bool.not_eq_true]
  intro next
  apply h
  rcases rest with _ | ⟨t, rest⟩
  · cases next
  · cases t with
    | identifier name =>
      have same : Text.sameIgnoringCase name word = true := next
      rcases words with rfl | rfl <;> simp [tightness, same]
    | _ => cases next

/-- What a call without a window is, which its name and `DISTINCT` decide. -/
def callOf (name : String) (distinct : Bool) (args : List Expr) (order : List OrderItem) : Expr :=
  if joiningNames.contains name then .listAggregate name distinct args order
  else if distinct || (Aggregate.ofName? name).isSome then .aggregate name distinct args
  else .call name args

theorem takes_callResult {order : List OrderItem} (stop : tightness rest ≠ 8) :
    Takes (g.callResult name distinct args order) [] (callOf name distinct args order) rest := by
  refine Takes.bind_none (takes_takeIf_not (isWord_ahead stop (.inl rfl))) ?_
  unfold callOf
  rw [if_neg (by simp)]
  split
  · exact Takes.pure _ rest
  · split <;> exact Takes.pure _ rest

theorem takes_callEnd {order : List OrderItem} (stop : tightness rest ≠ 8) :
    Takes (g.callEnd name distinct args order) [] (callOf name distinct args order) rest := by
  have within : Takes (Parser.takeWord "WITHIN") [] false rest :=
    takes_takeIf_not (isWord_ahead stop (.inr rfl))
  unfold Grammar.callEnd
  cases name == "LISTAGG" with
  | false => exact Takes.bind_none (Takes.pure order _) (takes_callResult stop)
  | true => exact Takes.bind_none within (Takes.bind_none (Takes.pure order _) (takes_callResult stop))

/-- A call without a window and without sort keys. -/
theorem takes_call (starts : g.Starts) (upper : Text.upper name = name)
    (list : List.Forall₂ g.Reads items args) (stop : tightness rest ≠ 8) :
    Takes g.primary (.identifier name
        :: parenTokens (tokenIf distinct (.keyword .distinct) ++ commaTokens items))
      (callOf name distinct args []) rest := by
  have close : Takes (g.callEnd name distinct args []) [] _ rest := takes_callEnd stop
  have whole := takes_callFrom starts upper list close
  rw [List.append_nil] at whole
  exact takes_primary_call whole

end

/-! ## First tokens -/

theorem atSymbol_eq (symbol : Symbol) (ls : List Lexeme) :
    Parser.atSymbol symbol ls = .ok ((ahead (ls.map Lexeme.token)).isSymbol symbol, ls) := by
  cases ls <;> rfl

theorem starts_bodyPrimary (g : Grammar) : StartsWith g.bodyPrimary Token.startsBody := by
  intro ls body rest run
  obtain ⟨parens, mid, first, second⟩ := bind_eq_ok.1 run
  rw [atSymbol_eq] at first
  cases first
  cases there : (ahead (ls.map Lexeme.token)).isSymbol .leftParen with
  | true => exact Bool.or_eq_true_iff.2 (.inr there)
  | false =>
    rw [there] at second
    obtain ⟨_, _, select, -⟩ := bind_eq_ok.1 second
    rw [(expectKeyword_ok select).1]
    rfl

theorem starts_body (g : Grammar) : StartsWith g.body Token.startsBody :=
  (starts_bodyPrimary g).bind.bind

theorem Token.opensQuery_of_startsBody {t : Token} (h : t.startsBody = true) : t.opensQuery = true := by
  cases t with
  | keyword k => cases k <;> first | rfl | cases h
  | symbol s => cases s <;> first | rfl | cases h
  | _ => cases h

theorem starts_fullQuery (g : Grammar) : StartsWith g.fullQuery Token.opensQuery := by
  intro ls q rest run
  obtain ⟨tables, mid, first, second⟩ := bind_eq_ok.1 run
  obtain ⟨took, _, word, tail⟩ := bind_eq_ok.1 first
  obtain ⟨rfl, rfl⟩ := takeIf_eq_ok.1 word
  cases there : (ahead (ls.map Lexeme.token)).isKeyword .with with
  | true =>
    rw [Token.isKeyword_iff.1 there]
    rfl
  | false =>
    rw [there] at tail
    obtain ⟨-, rfl⟩ := pure_eq_ok.1 tail
    obtain ⟨body, _, run, -⟩ := bind_eq_ok.1 second
    exact Token.opensQuery_of_startsBody (starts_body g _ _ _ run)

theorem ofDepth_starts (depth : Nat) : (Grammar.ofDepth depth).Starts := by
  cases depth with
  | zero => exact ⟨starts_expression 0, fun _ _ _ run => absurd run unexpected_ne_ok⟩
  | succ depth => exact ⟨starts_expression _, starts_fullQuery _⟩

end TableQuery.Language
