import TableQuery.Proofs.Syntax.Cuts
import TableQuery.Proofs.Syntax.Places

/-!
# Routines that call one another

The recursion of the grammar without a bound on its depth: a routine parses by calls of the routines
that it is given. Before it has taken a token it calls one other routine at most, which is a level
further down, so what it does at a place hangs on that routine at the place and on the others at
later places.
-/

namespace TableQuery.Language

open Language.Grammar

/-! ## Routines -/

/-- The routines that the recursion goes through. The other parsers are parts of these. -/
inductive Routine
  | expression
  | disjunction
  | conjunction
  | negation
  | comparison
  | concatenation
  | sum
  | term
  | unary
  | primary
  | query
  | body
  | intersection
  | bodyPrimary
  | selectBody
  | source
  | sourcePrimary

/-- What a routine parses. -/
abbrev Routine.Result : Routine → Type
  | .query => Query
  | .body | .intersection | .bodyPrimary | .selectBody => Body
  | .source | .sourcePrimary => Source
  | _ => Expr

/-- The one routine that a routine calls before it has taken a token. -/
def Routine.first? : Routine → Option Routine
  | .expression => some .disjunction
  | .disjunction => some .conjunction
  | .conjunction => some .negation
  | .negation => some .comparison
  | .comparison => some .concatenation
  | .concatenation => some .sum
  | .sum => some .term
  | .term => some .unary
  | .unary => some .primary
  | .query => some .body
  | .body => some .intersection
  | .intersection => some .bodyPrimary
  | .bodyPrimary => some .selectBody
  | .source => some .sourcePrimary
  | .primary | .selectBody | .sourcePrimary => none

/-- How many routines can be called in turn, one by the other, before a token is taken. -/
def Routine.level : Routine → Nat
  | .expression => 9
  | .disjunction => 8
  | .conjunction => 7
  | .negation => 6
  | .comparison => 5
  | .concatenation | .query => 4
  | .sum | .body => 3
  | .term | .intersection => 2
  | .unary | .bodyPrimary | .source => 1
  | .primary | .selectBody | .sourcePrimary => 0

theorem Routine.level_le (k : Routine) : k.level ≤ 9 := by
  cases k <;> decide

theorem Routine.level_of_first {k k' : Routine} (h : k' ∈ k.first?) : k.level = k'.level + 1 := by
  cases k <;> cases h <;> rfl

/-- What holds of a routine if it holds of the one that it calls first holds of all. -/
theorem Routine.descend {motive : Routine → Prop}
    (step : ∀ k, (∀ k' ∈ k.first?, motive k') → motive k) (k : Routine) : motive k :=
  step k fun k' h =>
    have := level_of_first h
    descend step k'
termination_by k.level

/-- Parsers that stand for the routines where these are called. -/
abbrev Routines := (k : Routine) → Parser k.Result

namespace Routines

open Language.Parser

/-- The parsers that stand for expressions, queries and sources. -/
def grammar (r : Routines) : Grammar :=
  ⟨r .expression, r .query, r .source⟩

/-- An operand with signs in front; `again` is what follows a sign. -/
def signed (again operand : Parser Expr) : Parser Expr := do
  match ← peek with
  | .symbol .minus =>
    advance
    match ← peek with
    | .integer i =>
      advance
      return .literal (.integer (-i))
    | .float f =>
      advance
      return .literal (.float (-f))
    | _ => return .signed .minus (← again)
  | .symbol .plus =>
    advance
    return .signed .plus (← again)
  | _ => operand

def concatenated (operand : Parser Expr) : Parser Expr := do
  match ← separatedBy .concat operand with
  | [e] => return e
  | items => return .concat items

/-- The rest of a comparison whose operator was taken. -/
def comparedFrom (operand values : Parser Expr) (op : CompareOp) (left : Expr) : Parser Expr := do
  match ← peek with
  | .keyword .any | .keyword .some =>
    advance
    return .any op left (← values)
  | .keyword .all =>
    advance
    return .all op left (← values)
  | _ => return .compare op left (← operand)

/-- A predicate of operands and lists of values. -/
def compared (operand values : Parser Expr) : Parser Expr := do
  let left ← operand
  if ← takeKeyword .is then
    let negated ← takeKeyword .not
    return .is negated left (.literal (← isOperand))
  else
    let negated ← takeNegation
    match ← peek with
    | .keyword .between =>
      advance
      let low ← operand
      expectKeyword .and
      return .between negated left low (← operand)
    | .keyword .like =>
      advance
      return .like negated left (← operand)
    | .keyword .in =>
      advance
      return .isIn negated left (← values)
    | _ =>
      match ← takeOperator? compareOp? with
      | some op => comparedFrom operand values op left
      | none => return left

/-- A predicate with `NOT`s in front; `again` is what follows one. -/
def negated (again predicate : Parser Expr) : Parser Expr := do
  if ← takeKeyword .not then return .not (← again)
  else predicate

def operand (query : Parser Query) (select : Parser Body) : Parser Body := do
  if ← atSymbol .leftParen then return .nested (← inParens query)
  else select

/-- A query with a certain body. -/
def queried (g : Grammar) (body : Parser Body) : Parser Query := do
  let (recursive, tables) ← g.inlineDefs
  let body ← body
  let order ← g.order
  let early ← g.offset
  let limit ← g.limit
  let offset ← if early.isSome then pure early else g.offset
  return .mk recursive tables body order offset limit

def joined (g : Grammar) (primary : Parser Source) : Parser Source := do
  let left ← primary
  g.joinsFrom (← remaining) left

/-- The routines, each with the calls of routines that it makes. -/
def calls (r : Routines) : Routines
  | .expression => r .disjunction
  | .disjunction => chain (r .conjunction) (takeOperator? (logicOp? .or .or))
  | .conjunction => chain (r .negation) (takeOperator? (logicOp? .and .and))
  | .negation => negated (r .negation) (r .comparison)
  | .comparison => compared (r .concatenation) r.grammar.valueSource
  | .concatenation => concatenated (r .sum)
  | .sum => chain (r .term) (takeOperator? termOp?)
  | .term => chain (r .unary) (takeOperator? factorOp?)
  | .unary => signed (r .unary) (r .primary)
  | .primary => r.grammar.primary
  | .query => queried r.grammar (r .body)
  | .body => chain (r .intersection) (takeSetOp? unionOp?)
  | .intersection => chain (r .bodyPrimary) (takeSetOp? intersectOp?)
  | .bodyPrimary => operand (r .query) (r .selectBody)
  | .selectBody => r.grammar.selectBody
  | .source => joined r.grammar (r .sourcePrimary)
  | .sourcePrimary => r.grammar.sourcePrimary

end Routines

/-! ## Parts of routines -/

section

variable {S : Places} {g g' : Grammar}

/-- The parsers of the grammars are alike on the places. -/
structure Grammar.Like (S : Places) (g g' : Grammar) : Prop where
  expression : Alike S g.expression g'.expression
  query : Alike S g.query g'.query
  source : Alike S g.source g'.source

theorem Grammar.Like.mono {T : Places} (h : g.Like T g') (within : S.Within T) : g.Like S g' :=
  ⟨h.expression.mono within, h.query.mono within, h.source.mono within⟩

theorem Grammar.Like.later (h : g.Like S g') : g.Like S.later g' :=
  h.mono S.later_within

theorem Grammar.Like.expressions (h : g.Like S g') : Alike S g.expressions g'.expressions :=
  h.expression.separatedBy

theorem alike_takeNulls : Alike S takeNulls? takeNulls? :=
  .bind_takeIf rfl (.bind_takeIf rfl (.pure _) (.bind_takeIf rfl (.pure _) (alike_unexpected _)))
    (.pure _)

theorem Grammar.Like.order (h : g.Like S.later g') : Alike S g.order g'.order := by
  have item : Alike S.later.later g.orderItem g'.orderItem :=
    h.later.expression.bind fun _ => (alike_takeOperator rfl).bind fun _ =>
      alike_takeNulls.bind fun _ => .pure _
  exact .bind_takeIf rfl (.bind_expectKeyword item.separatedBy) (.pure _)

theorem alike_columnFrom (first : String) : Alike S (columnFrom first) (columnFrom first) :=
  .bind_takeIf rfl
    (.bind_takeIf rfl (.pure _) ((alike_expectName _).bind fun _ => .pure _)) (.pure _)

theorem Grammar.Like.branches (h : g.Like S.later g') (bound : Nat) :
    Alike S (g.branches bound) (g'.branches bound) := by
  induction bound generalizing S with
  | zero => exact .pure _
  | succ bound ih =>
    refine .bind_takeIf rfl (h.expression.bind fun _ => .bind_expectKeyword ?_) (.pure _)
    exact h.later.expression.bind fun _ => (ih h.later.later).bind fun _ => .pure _

theorem Grammar.Like.caseFrom (h : g.Like S g') : Alike S g.caseFrom g'.caseFrom := by
  have close (operand : Option Expr) (branches : List Branch) : Alike S
      (do
        let otherwise ← Parser.afterKeyword? .else g.expression
        Parser.expectKeyword .end
        return Expr.case operand branches otherwise)
      (do
        let otherwise ← Parser.afterKeyword? .else g'.expression
        Parser.expectKeyword .end
        return Expr.case operand branches otherwise) :=
    h.later.expression.afterKeyword.bind fun _ => .bind_expectKeyword (.pure _)
  have rest (operand : Option Expr) : Alike S (g.caseEnd operand) (g'.caseEnd operand) :=
    .bind_remaining fun n => (h.later.branches n).bind fun _ =>
      .ite (.bind_unexpected _) (close _ _)
  exact .bind_atKeyword fun _ => .ite (Alike.bind (.pure _) rest) (h.expression.map.bind rest)

theorem Grammar.Like.windowFrom (h : g.Like S.later g') (name : String) (distinct : Bool)
    (args : List Expr) :
    Alike S (g.windowFrom name distinct args) (g'.windowFrom name distinct args) := by
  have rest (partition : List Expr) : Alike S.later
      (do return Expr.window name distinct args partition (← g.order))
      (do return Expr.window name distinct args partition (← g'.order)) :=
    h.later.order.bind fun _ => .pure _
  refine Alike.inParens (.bind_takeIf rfl (.bind_expectKeyword ?_) (Alike.bind (.pure _) rest))
  exact h.later.later.expressions.bind fun partition => (rest partition).later.later

theorem Grammar.Like.concatOptions (h : g.Like S.later g') :
    Alike S g.concatOptions g'.concatOptions := by
  refine h.order.bind fun _ => .bind_takeIf rfl (.bind_peek fun t => ?_) (.pure _)
  split
  · exact .advance (by rintro ⟨⟩) (.pure _)
  · exact (alike_unexpected _).at

theorem Grammar.Like.callEnd (h : g.Like S.later g') (name : String) (distinct : Bool)
    (args : List Expr) (order : List OrderItem) :
    Alike S (g.callEnd name distinct args order) (g'.callEnd name distinct args order) := by
  have close (order : List OrderItem) :
      Alike S (g.callResult name distinct args order) (g'.callResult name distinct args order) :=
    (alike_takeIf rfl).bind fun _ =>
      .ite (h.windowFrom name distinct args) (.ite (.pure _) (.ite (.pure _) (.pure _)))
  refine .ite (.bind_takeIf rfl (.bind_expectKeyword ?_) ?_) (Alike.bind (.pure _) close)
  · exact h.later.later.later.order.inParens.bind fun order => (close order).later.later
  · exact Alike.bind (.pure _) close

theorem Grammar.Like.callFrom (h : g.Like S.later g') (word : String) :
    Alike S (g.callFrom word) (g'.callFrom word) := by
  have close (distinct : Bool) (args : List Expr) : Alike S.later
      (g.callClose (Text.upper word) distinct args)
      (g'.callClose (Text.upper word) distinct args) := by
    have rest (options : List OrderItem × List Expr) : Alike S.later
        (do
          Parser.expectSymbol .rightParen
          g.callEnd (Text.upper word) distinct (args ++ options.2) options.1)
        (do
          Parser.expectSymbol .rightParen
          g'.callEnd (Text.upper word) distinct (args ++ options.2) options.1) :=
      .bind_expectSymbol (h.later.later.callEnd _ _ _ _)
    exact .ite (h.later.concatOptions.bind rest) (Alike.bind (.pure _) rest)
  refine .bind_expectSymbol ((alike_takeIf rfl).bind fun distinct =>
    .bind_atSymbol fun _ => .ite ?_ ?_)
  · exact Alike.bind (.pure _) (close distinct)
  · exact h.expressions.bind (close distinct)

theorem Grammar.Like.parenthesized (h : g.Like S.later g') :
    Alike S g.parenthesized g'.parenthesized := by
  refine Alike.inParens (.bind_atQuery fun _ => .ite (h.query.bind fun _ => .pure _) ?_)
  refine h.expressions.bind fun es => ?_
  split <;> exact .pure _

theorem Grammar.Like.primary (h : g.Like S.later g') : Alike S g.primary g'.primary := by
  refine .bind_peek fun t => ?_
  split
  · exact .advance (by rintro rfl; contradiction) (.pure _)
  · exact .advance (by rintro ⟨⟩) (.pure _)
  · exact .advance (by rintro ⟨⟩)
      (.bind_takeIf rfl (h.later.expression.bind fun _ => .pure _) (.pure _))
  · exact .advance (by rintro ⟨⟩) (h.later.query.inParens.bind fun _ => .pure _)
  · exact .advance (by rintro ⟨⟩) h.caseFrom
  · exact h.parenthesized.at
  · exact .advance (by rintro ⟨⟩) (.bind_atSymbol fun _ =>
      .ite (h.later.callFrom _) (alike_columnFrom _))
  · exact .advance (by rintro ⟨⟩) (alike_columnFrom _)
  · exact (alike_unexpected _).at

theorem Grammar.Like.valueSource (h : g.Like S.later g') : Alike S g.valueSource g'.valueSource :=
  Alike.inParens (.bind_atQuery fun _ =>
    .ite (h.query.bind fun _ => .pure _) (h.expressions.bind fun _ => .pure _))

theorem alike_isOperand : Alike S isOperand isOperand := by
  refine .bind_peek fun t => ?_
  split
  case h_5 => exact (alike_unexpected _).at
  all_goals exact AlikeAt.bind_look peek_eq fun _ => .advance (by rintro ⟨⟩) (.pure _)

theorem alike_takeNegation : Alike S takeNegation takeNegation := by
  refine .bind_peek fun t => AlikeAt.bind_look peekSecond_eq fun u => ?_
  split
  case h_4 => exact (Alike.pure _).at
  all_goals exact .advance (by rintro ⟨⟩) (.pure _)

theorem Grammar.Like.valueRows (h : g.Like S.later g') : Alike S g.valueRows g'.valueRows :=
  h.expressions.inParens.separatedBy

theorem alike_sourceColumns (aliasName : Option String) :
    Alike S (sourceColumns aliasName) (sourceColumns aliasName) := by
  cases aliasName with
  | none => exact .pure _
  | some name => exact .bind_atSymbol fun _ => .ite alike_columnNames (.pure _)

theorem alike_valuesSource (rows : List (List Expr)) :
    Alike S (valuesSource rows) (valuesSource rows) :=
  (alike_takeAlias _).bind fun _ => (alike_sourceColumns _).bind fun _ => .pure _

theorem alike_subquerySource (q : Query) : Alike S (subquerySource q) (subquerySource q) :=
  (alike_takeAlias _).bind fun _ => (alike_sourceColumns _).bind fun _ => .pure _

theorem Grammar.Like.parenthesizedSource (h : g.Like S g') :
    Alike S g.parenthesizedSource g'.parenthesizedSource := by
  refine .bind_takeIf rfl (h.later.later.valueRows.bind fun rows =>
    .bind_expectSymbol (alike_valuesSource rows)) ?_
  refine .bind_atQuery fun _ => .bind_atSymbol fun _ => .ite ?_ ?_
  · exact h.query.bind fun q => .bind_expectSymbol (alike_subquerySource q)
  · exact h.source.bind fun _ => .bind_expectSymbol (.pure _)

theorem alike_tableName : Alike S tableName tableName :=
  (alike_expectName _).separatedBy.bind fun _ => .pure _

theorem Grammar.Like.sourcePrimary (h : g.Like S.later g') :
    Alike S g.sourcePrimary g'.sourcePrimary := by
  refine .bind_peek fun t => ?_
  split
  · exact .advance (by rintro ⟨⟩) ((alike_takeAlias _).bind fun _ => .pure _)
  · exact .advance (by rintro ⟨⟩) ((alike_takeAlias _).bind fun _ => .pure _)
  · exact .advance (by rintro ⟨⟩) (h.later.valueRows.bind fun _ => alike_valuesSource _)
  · exact .advance (by rintro ⟨⟩) h.parenthesizedSource
  · exact (alike_tableName.bind fun _ => (alike_takeAlias _).bind fun _ => .pure _).at
  · exact (alike_tableName.bind fun _ => (alike_takeAlias _).bind fun _ => .pure _).at
  · exact (alike_unexpected _).at

theorem alike_takeJoinKind : Alike S takeJoinKind? takeJoinKind? := by
  have outer (t : Token) (more : t ≠ .ending) (kind : JoinKind) :
      AlikeAt S t (takeJoinKind?.outer kind) (takeJoinKind?.outer kind) :=
    .advance more ((alike_takeIf rfl).bind fun _ => .pure _)
  refine .bind_peek fun t => ?_
  split
  · exact .advance (by rintro ⟨⟩) (.pure _)
  · exact outer _ (by rintro ⟨⟩) _
  · exact outer _ (by rintro ⟨⟩) _
  · exact outer _ (by rintro ⟨⟩) _
  · exact (Alike.pure _).at
  · exact (Alike.pure _).at

theorem Grammar.Like.joinMatch (h : g.Like S.later g') (kind : JoinKind) :
    Alike S (g.joinMatch kind) (g'.joinMatch kind) := by
  refine .bind_takeIf rfl (h.expression.bind fun _ => .pure _) ?_
  refine (alike_takeIf rfl).bind fun _ => .ite (alike_columnNames.bind fun _ => .pure _) ?_
  exact .ite (.pure _) (alike_unexpected _)

theorem Grammar.Like.joinFrom (h : g.Like S.later g') (kind : JoinKind) (natural : Bool)
    (left : Source) : Alike S (g.joinFrom kind natural left) (g'.joinFrom kind natural left) := by
  have rest (right : Source) (matching : JoinMatch) : Alike S.later
      (Pure.pure (.join kind left right matching) : Parser Source) (Pure.pure _) := .pure _
  refine .bind_expectKeyword (h.later.sourcePrimary.bind fun right => .ite ?_ (.ite ?_ ?_))
  · exact Alike.bind (.pure _) (rest right)
  · exact Alike.bind (.pure _) (rest right)
  · exact (h.later.joinMatch kind).bind (rest right)

theorem Grammar.Like.joinsFrom (h : g.Like S.later g') (bound : Nat) (left : Source) :
    Alike S (g.joinsFrom bound left) (g'.joinsFrom bound left) := by
  induction bound generalizing left with
  | zero => exact .pure _
  | succ bound ih =>
    refine (alike_takeIf rfl).bind fun _ => .ite ((h.joinFrom _ _ _).bind fun _ => ih _) ?_
    refine (alike_takeIf rfl).bind fun natural => alike_takeJoinKind.bind fun kind? => ?_
    cases kind? with
    | some kind => exact (h.joinFrom _ _ _).bind fun _ => ih _
    | none => exact .ite (alike_unexpected _) (.pure _)

theorem alike_takeDistinct : Alike S takeDistinct takeDistinct :=
  .bind_takeIf rfl (.pure _) ((alike_takeIf rfl).bind fun _ => .pure _)

theorem alike_takeAll : Alike S takeAll takeAll :=
  .bind_takeIf rfl (.pure _) ((alike_takeIf rfl).bind fun _ => .pure _)

theorem Grammar.Like.selectBody (h : g.Like S.later g') : Alike S g.selectBody g'.selectBody := by
  have field : Alike S.later g.field g'.field :=
    h.expression.bind fun _ => (alike_takeAlias _).bind fun _ => .pure _
  refine .bind_expectKeyword (alike_takeDistinct.bind fun _ => field.separatedBy.bind fun _ =>
    h.later.source.separatedBy.afterKeyword.bind fun _ =>
    h.later.expression.afterKeyword.bind fun _ =>
    Alike.bind (.afterKeyword ?_) fun _ => h.later.expression.afterKeyword.bind fun _ => .pure _)
  exact .bind_expectKeyword h.later.later.expressions

theorem operates_takeSetOp {op? : Token → Option SetOp} (other : op? .ending = none) :
    Operates (takeSetOp? op?) where
  taken ls combine rest run := by
    obtain ⟨op?, mid, first, second⟩ := bind_eq_ok.1 run
    cases op? with
    | none => cases second
    | some op =>
      have all : Alike (.startingAt mid) (do return some (Body.combine op (← takeAll))) _ :=
        alike_takeAll.bind fun _ => .pure _
      have later := (operates_takeOperator other).taken ls op mid first
      exact later.trans_reaches (all.reaches mid _ rest (.here mid) second)
  kept ls rest run := by
    obtain ⟨op?, mid, first, second⟩ := bind_eq_ok.1 run
    cases op? with
    | none =>
      cases second
      exact (operates_takeOperator other).kept ls rest first
    | some op =>
      obtain ⟨_, _, _, last⟩ := bind_eq_ok.1 second
      cases last

theorem Grammar.Like.inlineDefs (h : g.Like S.later g') : Alike S g.inlineDefs g'.inlineDefs := by
  have rest (name : String) (columns : List String) : Alike S.later
      (do
        Parser.expectKeyword .as
        return InlineDef.mk name columns (← Parser.inParens g.query))
      (do
        Parser.expectKeyword .as
        return InlineDef.mk name columns (← Parser.inParens g'.query)) :=
    .bind_expectKeyword (h.later.later.query.inParens.bind fun _ => .pure _)
  have item : Alike S.later g.inlineDef g'.inlineDef :=
    (alike_expectName _).bind fun name => .bind_atSymbol fun _ =>
      .ite (alike_columnNames.bind (rest name)) (Alike.bind (.pure _) (rest name))
  exact .bind_takeIf rfl ((alike_takeIf rfl).bind fun _ => item.separatedBy.bind fun _ => .pure _)
    (.pure _)

theorem Grammar.Like.offset (h : g.Like S.later g') : Alike S g.offset g'.offset := by
  refine Alike.afterKeyword (h.expression.bind fun _ => (alike_takeIf rfl).bind fun _ => ?_)
  exact .ite ((alike_takeIf rfl).bind fun _ => .pure _) (.pure _)

theorem alike_takeTies : Alike S takeTies takeTies where
  same _ _ := rfl
  reaches ls a rest _ run := by
    rw [takeTies_eq] at run
    split at run
    · rename_i ties
      obtain ⟨first, second⟩ := Bool.and_eq_true_iff.1 ties
      cases run
      have both := (later_of_test rfl first).reaches.trans (later_of_test rfl second).reaches
      rwa [← List.drop_one, ← List.drop_one, List.drop_drop] at both
    · cases run
      exact .here ls

theorem Grammar.Like.limit (h : g.Like S.later g') : Alike S g.limit g'.limit :=
  .bind_takeIf rfl (h.expression.bind fun _ => (alike_takeIf rfl).bind fun _ =>
    alike_takeTies.bind fun _ => .pure _) (.pure _)

end

/-! ## Calls -/

section

variable {S : Places} {r r' : Routines}

theorem Routines.like_grammar (h : ∀ k, Alike S (r k) (r' k)) : r.grammar.Like S r'.grammar :=
  ⟨h .expression, h .query, h .source⟩

theorem alike_signed {again again' operand operand' : Parser Expr} (h : Alike S.later again again')
    (h' : Alike S operand operand') :
    Alike S (Routines.signed again operand) (Routines.signed again' operand') := by
  refine .bind_peek fun t => ?_
  split
  · refine .advance (by rintro ⟨⟩) (.bind_peek fun t => ?_)
    split
    · exact .advance (by rintro ⟨⟩) (.pure _)
    · exact .advance (by rintro ⟨⟩) (.pure _)
    · exact (h.bind fun _ => .pure _).at
  · exact .advance (by rintro ⟨⟩) (h.bind fun _ => .pure _)
  · exact h'.at

theorem alike_concatenated {operand operand' : Parser Expr} (h : Alike S operand operand') :
    Alike S (Routines.concatenated operand) (Routines.concatenated operand') := by
  refine h.separatedBy.bind fun es => ?_
  split <;> exact .pure _

theorem alike_compared {operand operand' values values' : Parser Expr}
    (h : Alike S operand operand') (h' : Alike S.later values values') :
    Alike S (Routines.compared operand values) (Routines.compared operand' values') := by
  have compared (op : CompareOp) (left : Expr) : Alike S.later
      (Routines.comparedFrom operand values op left)
      (Routines.comparedFrom operand' values' op left) := by
    refine .bind_peek fun t => ?_
    split
    case h_4 => exact (h.later.bind fun _ => .pure _).at
    all_goals exact .advance (by rintro ⟨⟩) (h'.later.bind fun _ => .pure _)
  refine h.bind fun left => (alike_takeIf rfl).bind fun _ => .ite ?_ ?_
  · exact (alike_takeIf rfl).bind fun _ => alike_isOperand.bind fun _ => .pure _
  · refine alike_takeNegation.bind fun _ => .bind_peek fun t => ?_
    split
    · exact .advance (by rintro ⟨⟩) (h.later.bind fun _ => .bind_expectKeyword
        (h.later.later.bind fun _ => .pure _))
    · exact .advance (by rintro ⟨⟩) (h.later.bind fun _ => .pure _)
    · exact .advance (by rintro ⟨⟩) (h'.bind fun _ => .pure _)
    · exact Alike.at (.bind_operator (operates_takeOperator rfl) (fun op => compared op left)
        (.pure _))

theorem alike_negated {again again' predicate predicate' : Parser Expr}
    (h : Alike S.later again again') (h' : Alike S predicate predicate') :
    Alike S (Routines.negated again predicate) (Routines.negated again' predicate') :=
  .bind_takeIf rfl (h.bind fun _ => .pure _) h'

theorem alike_operand {query query' : Parser Query} {select select' : Parser Body}
    (h : Alike S.later query query') (h' : Alike S select select') :
    Alike S (Routines.operand query select) (Routines.operand query' select') :=
  .bind_atSymbol fun _ => .ite (h.inParens.bind fun _ => .pure _) h'

theorem alike_queried {g g' : Grammar} {body body' : Parser Body} (h : g.Like S.later g')
    (h' : Alike S body body') : Alike S (Routines.queried g body) (Routines.queried g' body') := by
  have rest (tables : Bool × List InlineDef) (body : Body) (order : List OrderItem) (limit : Limit)
      (offset : Option Expr) : Alike S
      (Pure.pure (Query.mk tables.1 tables.2 body order offset limit) : Parser Query)
      (Pure.pure (Query.mk tables.1 tables.2 body order offset limit)) := .pure _
  refine h.inlineDefs.bind fun tables => h'.bind fun body => h.order.bind fun order =>
    h.offset.bind fun early => h.limit.bind fun limit => .ite ?_ ?_
  · exact Alike.bind (.pure _) (rest tables body order limit)
  · exact h.offset.bind (rest tables body order limit)

theorem alike_joined {g g' : Grammar} {primary primary' : Parser Source} (h : g.Like S.later g')
    (h' : Alike S primary primary') :
    Alike S (Routines.joined g primary) (Routines.joined g' primary') :=
  h'.bind fun left => .bind_remaining fun n => h.joinsFrom n left

/-- What a routine does at a place hangs on the routine that it calls first at the place, and on all
routines at later places. -/
theorem Routines.alike_calls {k : Routine} (later : ∀ k, Alike S.later (r k) (r' k))
    (first : ∀ k' ∈ k.first?, Alike S (r k') (r' k')) : Alike S (r.calls k) (r'.calls k) := by
  have grammar := like_grammar later
  have logic {k : Keyword} {op : LogicOp} : Operates (Parser.takeOperator? (logicOp? k op)) :=
    operates_takeOperator rfl
  cases k with
  | expression => exact first _ rfl
  | disjunction => exact (first .conjunction rfl).chain logic
  | conjunction => exact (first .negation rfl).chain logic
  | negation => exact alike_negated (later .negation) (first _ rfl)
  | comparison => exact alike_compared (first .concatenation rfl) grammar.later.valueSource
  | concatenation => exact alike_concatenated (first .sum rfl)
  | sum => exact (first .term rfl).chain (operates_takeOperator rfl)
  | term => exact (first .unary rfl).chain (operates_takeOperator rfl)
  | unary => exact alike_signed (later .unary) (first _ rfl)
  | primary => exact grammar.primary
  | query => exact alike_queried grammar (first .body rfl)
  | body => exact (first .intersection rfl).chain (operates_takeSetOp rfl)
  | intersection => exact (first .bodyPrimary rfl).chain (operates_takeSetOp rfl)
  | bodyPrimary => exact alike_operand (later .query) (first _ rfl)
  | selectBody => exact grammar.selectBody
  | source => exact alike_joined grammar (first .sourcePrimary rfl)
  | sourcePrimary => exact grammar.sourcePrimary

end

end TableQuery.Language
