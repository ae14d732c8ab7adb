import TableQuery.Proofs.Number.Negation
import TableQuery.Proofs.Syntax.Following
import TableQuery.Proofs.Text.Upper

/-!
# Expressions are read back

What a grammar gives as an expression is read back from its tokens by a grammar that is deep enough
for their number, wherever it may stop as it did. The levels of the grammar are taken one after the
other, from the operands up; what is nested is read back by the grammar below.
-/

namespace TableQuery.Language

open Language.Grammar

/-- In front of the tokens an expression ends that did so in front of tokens that bind with the
tightness: nothing follows, or what binds alike. -/
def Stops (n : Nat) (rest : List Token) : Prop :=
  tightness rest ≠ 8 ∧ (tightness rest = 0 ∨ tightness rest = n)

/-- The grammar reads the source as the first one of a list of joins, and as an operand of a join if
it is none. -/
structure Grammar.ReadsJoined (g : Grammar) (s : Source) : Prop where
  operand : s.isJoin = false → ∀ rest, (ahead rest).continuesTable = false →
    Takes g.sourcePrimary s.tokens s rest
  first : ∀ rest, (ahead rest).joins = true ∨ (ahead rest).closes = true →
    g.LeadsSource s.tokens s rest

/-- What the grammar gives is read back from its tokens, at any depth that their number allows. -/
structure Grammar.Restores (g : Grammar) : Prop where
  consuming : g.Consuming
  expression : ∀ d e n, GivesBefore g.expression e n → e.Printable → e.tokens.length < d →
    ∀ rest, Stops n rest → Takes (Grammar.ofDepth d).expression e.tokens e rest
  query : ∀ d q, Gives g.query q → q.Printable → q.tokens.length < d →
    (Grammar.ofDepth d).ReadsQuery q.tokens q
  start : ∀ q, GivesQuery g q → ∀ rest, (ahead (q.tokens ++ rest)).startsQuery = true
  source : ∀ d s, Gives g.source s → s.Printable → s.tokens.length ≤ d →
    (Grammar.ofDepth d).ReadsJoined s

theorem stops_of_zero {n : Nat} {rest : List Token} (h : tightness rest = 0) : Stops n rest :=
  ⟨by rw [h]; decide, .inl h⟩

theorem Stops.ne {n k : Nat} {rest : List Token} (h : Stops n rest) (other : n ≠ k) (binds : k ≠ 0) :
    tightness rest ≠ k := by
  obtain ⟨-, zero | same⟩ := h
  · rw [zero]
    exact binds.symm
  · rwa [same]

section

variable {g : Grammar} {d n : Nat} {e : Expr} {es args : List Expr} {rest : List Token}
  {order : List OrderItem} {name : String}

/-! ## Nested expressions -/

theorem Grammar.Restores.nested (restores : g.Restores) (h : Gives g.expression e)
    (printable : e.Printable) : ReadsNested e := by
  obtain ⟨ls, rest, run⟩ := h
  exact fun d deep r stop => restores.expression d e _ (.of_run run) printable deep r (stops_of_zero stop)

theorem Grammar.Restores.argument (restores : g.Restores) (h : GivesArgument g e)
    (printable : e.Printable) : ReadsNested e := by
  obtain given | ⟨s, rfl⟩ := h
  · exact restores.nested given printable
  · exact (Leveled.text s).of_unary.readsDeep.nested

theorem printable_of_mem (h : allPrintable es) : ∀ e ∈ es, e.Printable := by
  induction es with
  | nil => simp
  | cons e es ih =>
    rw [List.forall_mem_cons]
    exact ⟨h.1, ih h.2⟩

theorem printable_of_branch {branches : List Branch} {condition result : Expr}
    (h : branchesPrintable branches) (member : .mk condition result ∈ branches) :
    condition.Printable ∧ result.Printable := by
  induction branches with
  | nil => cases member
  | cons branch branches ih =>
    obtain ⟨condition', result'⟩ := branch
    rcases List.mem_cons.1 member with same | member
    · obtain ⟨rfl, rfl⟩ := Branch.mk.inj same
      exact ⟨h.1, h.2.1⟩
    · exact ih h.2.2 member

theorem Grammar.Restores.option (restores : g.Restores) {clause : Option Expr}
    (given : ∀ e ∈ clause, Gives g.expression e) (printable : optionPrintable clause) :
    ∀ e ∈ clause, ReadsNested e := by
  rintro e member
  obtain rfl : clause = some e := member
  exact restores.nested (given e rfl) printable

theorem Grammar.Restores.sortKeys (restores : g.Restores) (given : GivesOrder g order)
    (printable : orderPrintable order) (short : ∀ ts ∈ orderTokens order, ts.length < d) :
    (Grammar.ofDepth d).ReadsOrder order := by
  induction order with
  | nil => trivial
  | cons item order ih =>
    obtain ⟨key, direction, nulls⟩ := item
    rw [orderTokens, List.forall_mem_cons, List.length_append] at short
    refine ⟨restores.nested (given key direction nulls List.mem_cons_self) printable.1 d (by omega), ?_⟩
    exact ih (fun k dir n member => given k dir n (List.mem_cons_of_mem _ member)) printable.2 short.2

/-! ## Calls -/

theorem length_lt_orderBy {items : List (List Token)} {ts : List Token} (h : ts ∈ items) :
    ts.length < (orderByTokens items).length := by
  rw [orderByTokens, if_neg (by simpa using List.ne_nil_of_mem h), List.length_cons, List.length_cons]
  have inner : ts.length ≤ (commaTokens items).length := length_le_separated h
  omega

theorem length_over (partition items : List (List Token)) :
    (commaTokens partition).length ≤ (overTokens partition items).length ∧
      (orderByTokens items).length ≤ (overTokens partition items).length := by
  rw [overTokens, List.length_append]
  refine ⟨?_, Nat.le_add_left _ _⟩
  cases partition with
  | nil => exact Nat.zero_le _
  | cons ts partition =>
    rw [if_neg (by simp), List.length_cons, List.length_cons]
    omega

theorem CallForm.takes (restores : g.Restores) (h : CallForm g name e) (upper : Text.upper name = name)
    (printable : e.Printable) (deep : e.tokens.length ≤ d) (stop : tightness rest ≠ 8) :
    Takes (Grammar.ofDepth d).primary e.tokens e rest := by
  have starts := ofDepth_starts d
  have arguments {args : List Expr} (given : ∀ e ∈ args, GivesArgument g e) (p : allPrintable args)
      (short : (commaTokens (exprTokens args)).length < d) :
      List.Forall₂ (Grammar.ofDepth d).Reads (exprTokens args) args :=
    readsNested_list (fun e member => restores.argument (given e member) (printable_of_mem p e member))
      short
  have sortKeys {order : List OrderItem} (given : GivesOrder g order) (p : orderPrintable order)
      (short : (orderByTokens (orderTokens order)).length < d) : (Grammar.ofDepth d).ReadsOrder order :=
    restores.sortKeys given p fun ts member => Nat.lt_trans (length_lt_orderBy member) short
  cases h with
  | @window distinct args partition order argsGiven partitionGiven orderGiven =>
    obtain ⟨-, argsPrintable, partitionPrintable, keysPrintable⟩ := printable
    simp only [Expr.tokens, parenTokens, List.length_cons, List.length_append] at deep
    obtain ⟨partitionShort, keysShort⟩ := length_over (exprTokens partition) (orderTokens order)
    have keys := sortKeys orderGiven keysPrintable (by omega)
    have partitions := arguments (fun e member => .inl (partitionGiven e member)) partitionPrintable
      (by omega)
    exact takes_primary_call (takes_callFrom starts upper (arguments argsGiven argsPrintable (by omega))
      (takes_callEnd_over partitions keys))
  | @plain distinct args order argsGiven orderGiven =>
    unfold callOf at printable deep ⊢
    split at printable <;> rename_i joining
    · rw [if_pos joining] at deep ⊢
      obtain ⟨-, suits, argsPrintable, keysPrintable⟩ := printable
      simp only [Expr.tokens, parenTokens, List.length_cons, List.length_append] at deep
      have list := arguments argsGiven argsPrintable (by omega)
      cases order with
      | nil =>
        have took : Takes (Grammar.ofDepth d).primary _ (callOf name distinct args []) rest :=
          takes_call starts upper list stop
        rw [callOf, if_pos joining] at took
        simpa [Expr.tokens] using took
      | cons item order =>
        obtain rfl : name = "LISTAGG" := suits.resolve_right (List.cons_ne_nil _ _)
        simp only [List.isEmpty_cons, Bool.false_eq_true, if_false, List.length_cons,
          List.length_append] at deep
        have keys := sortKeys orderGiven keysPrintable (by omega)
        exact takes_primary_call (takes_callFrom starts upper list (takes_callEnd_within keys stop))
    · rw [if_neg joining] at deep ⊢
      split at printable <;> rename_i aggregate
      · rw [if_pos aggregate] at deep ⊢
        simp only [Expr.tokens, parenTokens, List.length_cons, List.length_append] at deep
        have list := arguments argsGiven printable.2 (by omega)
        have took : Takes (Grammar.ofDepth d).primary _ (callOf name distinct args []) rest :=
          takes_call starts upper list stop
        rwa [callOf, if_neg joining, if_pos aggregate] at took
      · rw [if_neg aggregate] at deep ⊢
        simp only [Expr.tokens, parenTokens, List.length_cons, List.length_append] at deep
        have list := arguments argsGiven printable.2 (by omega)
        obtain rfl : distinct = false := by simp_all
        have took : Takes (Grammar.ofDepth d).primary _ (callOf name false args []) rest :=
          takes_call starts upper list stop
        rwa [callOf, if_neg joining, if_neg aggregate] at took

theorem CallForm.tokens (h : CallForm g name e) : ∃ ts, e.tokens = .identifier name :: ts := by
  cases h with
  | window => exact ⟨_, rfl⟩
  | plain =>
    unfold callOf
    split
    · exact ⟨_, rfl⟩
    · split <;> exact ⟨_, rfl⟩

/-! ## Operands -/

theorem takes_literalTokens {l : Literal} (printable : l.Printable) :
    Takes g.unary l.tokens (.literal l) rest := by
  have plain {t : Token} (unsigned : t ≠ .symbol .minus ∧ t ≠ .symbol .plus)
      (value : literal? t = some l) : Takes g.unary [t] (.literal l) rest :=
    takes_unary_of_primary (takes_literal value) unsigned
  cases l with
  | integer i =>
    rw [Literal.tokens]
    split
    · have took : Takes g.unary _ _ rest := takes_negative_integer (-i)
      rwa [Int64.neg_neg] at took
    · exact plain (by simp) rfl
  | float f =>
    rw [Literal.tokens]
    split
    · have took : Takes g.unary _ _ rest := takes_negative_float (-f)
      rwa [Number.neg_neg] at took
    · exact plain (by simp) rfl
  | text s => exact plain (by simp) rfl
  | truth t => exact plain (by simp) (literal?_keyword t)
  | null => exact plain (by simp) rfl

theorem PrimaryForm.takes (restores : g.Restores) (h : PrimaryForm g e n) (printable : e.Printable)
    (deep : e.tokens.length ≤ d) (stop : Stops n rest) :
    Takes (Grammar.ofDepth d).unary e.tokens e rest := by
  have starts := ofDepth_starts d
  have unsigned {t : Token} {ts : List Token} (h : Takes (Grammar.ofDepth d).primary (t :: ts) e rest)
      (operand : t ≠ .symbol .minus ∧ t ≠ .symbol .plus) :
      Takes (Grammar.ofDepth d).unary (t :: ts) e rest :=
    takes_unary_of_primary h operand
  cases h with
  | literal l => exact takes_literalTokens printable
  | column table name =>
    cases table with
    | none => exact unsigned (takes_column name stop.1) (by simp)
    | some table => exact unsigned (takes_tableColumn table name) (by simp)
  | allColumns => exact unsigned takes_allColumns (by simp)
  | tableColumns table => exact unsigned (takes_tableColumns table) (by simp)
  | var name => exact unsigned (takes_variable name stop.1) (by simp)
  | assign name given =>
    simp only [Expr.tokens, List.length_cons] at deep
    exact unsigned (takes_assign name
      (restores.expression d _ _ given printable.2 (by omega) rest stop)) (by simp)
  | existsIn _ given =>
    simp only [Expr.tokens, parenTokens, List.length_cons, List.length_append] at deep
    exact unsigned (takes_existsIn (restores.query d _ given printable (by omega))) (by simp)
  | @case operand otherwise branches _ given =>
    obtain ⟨operandPrintable, branchesPrintable, otherwisePrintable⟩ := printable
    simp only [Expr.tokens, List.length_cons, List.length_append, List.length_nil] at deep
    have readsOperand : (Grammar.ofDepth d).ReadsOption operand :=
      readsNested_option (restores.option given.operand operandPrintable) [] (by omega)
    have readsBranches : (Grammar.ofDepth d).ReadsBranches branches :=
      readsNested_branches (fun c r member =>
        ⟨restores.nested (given.branches c r member).1 (printable_of_branch branchesPrintable member).1,
          restores.nested (given.branches c r member).2 (printable_of_branch branchesPrintable member).2⟩)
        (by omega)
    have readsOtherwise : (Grammar.ofDepth d).ReadsOption otherwise :=
      readsNested_option (restores.option given.otherwise otherwisePrintable) [.keyword .else] (by omega)
    exact unsigned (takes_case starts readsOperand readsBranches given.nonempty readsOtherwise) (by simp)
  | subquery _ given =>
    simp only [Expr.tokens, parenTokens, List.length_cons, List.length_append] at deep
    exact unsigned (takes_primary_parens (takes_subquery
      (restores.query d _ given.gives printable (by omega)) (restores.start _ given _))) (by simp)
  | parens _ given =>
    simp only [Expr.tokens, parenTokens, List.length_cons, List.length_append] at deep
    exact unsigned (takes_primary_parens (takes_parens starts
      (restores.nested given printable d (by omega)))) (by simp)
  | rowValue _ several given =>
    simp only [Expr.tokens, parenTokens, List.length_cons, List.length_append] at deep
    have list : List.Forall₂ (Grammar.ofDepth d).Reads _ _ := readsNested_list
      (fun e member => restores.nested (given e member) (printable_of_mem printable e member)) (by omega)
    exact unsigned (takes_primary_parens (takes_rowValue starts list several)) (by simp)
  | call word _ form =>
    have took := form.takes restores (Text.upper_upper word) printable deep stop.1
    obtain ⟨ts, tokens⟩ := form.tokens
    rw [tokens] at took ⊢
    exact unsigned took (by simp)

/-- An operand of a minus sign that is no number starts with no number. -/
theorem UnaryForm.tokens (h : UnaryForm g e n) (number : e.isNumber = false) :
    ∃ t ts, e.tokens = t :: ts ∧ (∀ i, t ≠ .integer i) ∧ ∀ f, t ≠ .float f := by
  cases h with
  | signed sign => exact ⟨_, _, rfl, by simp, by simp⟩
  | primary h =>
    cases h with
    | literal l =>
      cases l with
      | integer | float => cases number
      | text | truth | null => exact ⟨_, _, rfl, by simp, by simp⟩
    | column table name => cases table <;> exact ⟨_, _, rfl, by simp, by simp⟩
    | call word _ form =>
      obtain ⟨ts, tokens⟩ := form.tokens
      exact ⟨_, ts, tokens, by simp, by simp⟩
    | _ => exact ⟨_, _, rfl, by simp, by simp⟩

theorem UnaryForm.takes (restores : g.Restores) (h : UnaryForm g e n) (printable : e.Printable)
    (deep : e.tokens.length ≤ d) (stop : Stops n rest) :
    Takes (Grammar.ofDepth d).unary e.tokens e rest := by
  induction h with
  | @signed sign e n operand ih =>
    simp only [Expr.tokens, List.length_cons] at deep
    have inner := ih printable.2 (by omega) stop
    cases sign with
    | plus => exact takes_plus inner
    | minus =>
      obtain ⟨t, ts, tokens, integer, float⟩ := operand.tokens (printable.1 rfl).2
      rw [tokens] at inner
      rw [Expr.tokens, tokens]
      exact takes_minus inner integer float
  | primary h => exact h.takes restores printable deep stop

/-! ## Operators -/

/-- What the grammar gives at the level is read back at the depth, wherever it stops in the same way. -/
def Rereads (g : Grammar) (d : Nat) (l : Level) : Prop :=
  ∀ e n, GivesBefore (g.at l) e n → e.Printable → e.tokens.length ≤ d →
    ∀ rest, Stops n rest → Takes ((Grammar.ofDepth d).at l) e.tokens e rest

/-- An operator of a level that associates to the left joins the tokens of its operands. -/
theorem operator_joins {l : Level} {operator? : Token → Option (Expr → Expr → Expr)} {t : Token}
    {f : Expr → Expr → Expr} (associates : l.operator? = some operator?)
    (operator : operator? t = some f) (a b : Expr) :
    (f a b).tokens = a.tokens ++ t :: b.tokens ∧ ((f a b).Printable → a.Printable ∧ b.Printable) := by
  cases l <;> cases associates
  all_goals
    cases t with
    | symbol s =>
      cases s <;> first
        | (cases operator; exact ⟨rfl, id⟩)
        | cases operator
    | keyword k =>
      cases k <;> first
        | (cases operator; exact ⟨rfl, id⟩)
        | cases operator
    | _ => cases operator

theorem rereads_chain {l : Level} {operator? : Token → Option (Expr → Expr → Expr)}
    {operand : Grammar → Parser Expr} (associates : l.operator? = some operator?)
    (consumes : Consumes (operand g))
    (below : ∀ e n, GivesBefore (operand g) e n → e.Printable → e.tokens.length ≤ d →
      ∀ rest, Stops n rest → Takes (operand (Grammar.ofDepth d)) e.tokens e rest)
    (h : GivesBefore (Parser.chain (operand g) (Parser.takeOperator? operator?)) e n)
    (printable : e.Printable) (deep : e.tokens.length ≤ d) (stop : Stops n rest) :
    Takes (Parser.chain (operand (Grammar.ofDepth d)) (Parser.takeOperator? operator?)) e.tokens e
      rest := by
  have ending : operator? .ending = none := by
    cases l <;> cases associates <;> rfl
  have loose : l.rank ≠ 8 ∧ l.rank ≠ 0 := by
    cases l <;> first | exact ⟨by decide, by decide⟩ | cases associates
  obtain ⟨form, stopped⟩ := chainForm consumes (tightness_eq_rank associates) ending h
  have leads : Leads (operand (Grammar.ofDepth d)) (Parser.takeOperator? operator?) e.tokens e rest := by
    clear h stopped
    induction form generalizing rest with
    | operand given => exact (below _ _ given printable deep rest stop).leads
    | @combine a b t f n left operator right ih =>
      obtain ⟨tokens, parts⟩ := operator_joins associates operator a b
      rw [tokens, List.length_append, List.length_cons] at deep
      have binds (r : List Token) : tightness (t :: r) = l.rank := by
        rw [tightness_eq_rank associates, ahead, List.headD_cons, operator]
        rfl
      have first := ih (parts printable).1 (by omega)
        (⟨by rw [binds]; exact loose.1, .inr (binds _)⟩ : Stops l.rank (t :: (b.tokens ++ rest)))
      rw [tokens]
      exact first.operator operator (below _ _ right (parts printable).2 (by omega) rest stop)
  have other := stop.ne stopped loose.2
  rw [Ne, tightness_eq_rank associates, Bool.not_eq_true, Option.isSome_eq_false_iff,
    Option.isNone_iff_eq_none] at other
  exact leads.takes (takes_operator_none other)

theorem Gives.of_isOperand {l : Literal} (h : Gives isOperand l) :
    ∃ t, literal? t = some l ∧ l.tokens = [t] ∧
      (t = .keyword .null ∨ t = .keyword .true ∨ t = .keyword .false ∨ t = .keyword .unknown) := by
  obtain ⟨ls, rest, run⟩ := h
  obtain ⟨t, mid, first, run⟩ := bind_eq_ok.1 run
  rw [peek_eq] at first
  obtain ⟨here, rfl⟩ := Prod.mk.inj (Except.ok.inj first)
  split at run
  case h_5 => exact absurd run unexpected_ne_ok
  all_goals
    obtain ⟨t, mid, second, run⟩ := bind_eq_ok.1 run
    rw [peek_eq, here] at second
    obtain ⟨rfl, rfl⟩ := Prod.mk.inj (Except.ok.inj second)
    obtain ⟨_, _, -, run⟩ := bind_eq_ok.1 run
    obtain ⟨rfl, -⟩ := pure_eq_ok.1 run
    exact ⟨_, rfl, rfl, by simp [Truth.keyword]⟩

/-- Items with the operator `||` between them are one item or an expression of their own. -/
theorem concatenationForm (consumes : Consumes g.sum) (h : GivesBefore g.concatenation e n) :
    n ≠ Level.concatenation.rank ∧ (GivesBefore g.sum e n ∨
      ∃ es, 2 ≤ es.length ∧ ListForm g.sum es n ∧ e = .concat es) := by
  obtain ⟨ls, rest, run, rfl⟩ := h
  obtain ⟨items, mid, list, run⟩ := bind_eq_ok.1 run
  obtain ⟨form, stopped⟩ := listForm consumes (.of_run list)
  cases form with
  | last given =>
    obtain ⟨rfl, rfl⟩ := pure_eq_ok.1 run
    exact ⟨stopped, .inl given⟩
  | @cons e es _ given more =>
    cases more with
    | last =>
      obtain ⟨rfl, rfl⟩ := pure_eq_ok.1 run
      exact ⟨stopped, .inr ⟨_, by simp, .cons given (.last ‹_›), rfl⟩⟩
    | cons =>
      obtain ⟨rfl, rfl⟩ := pure_eq_ok.1 run
      exact ⟨stopped, .inr ⟨_, by simp, .cons given (.cons ‹_› ‹_›), rfl⟩⟩

theorem rereads_list {es : List Expr} (below : Rereads g d .sum) (h : ListForm g.sum es n)
    (printable : allPrintable es) (short : ∀ ts ∈ exprTokens es, ts.length ≤ d) (stop : Stops n rest) :
    TakesList (Grammar.ofDepth d).sum .concat rest (exprTokens es) es := by
  induction h with
  | last given =>
    rw [exprTokens, List.forall_mem_cons] at short
    exact .cons (below _ _ given printable.1 short.1 _ stop) .nil
  | cons given more ih =>
    rw [exprTokens, List.forall_mem_cons] at short
    refine .cons (below _ _ given printable.1 short.1 _ ?_) (ih printable.2 short.2 stop)
    cases more <;> exact ⟨(by decide : 5 ≠ 8), .inr rfl⟩

theorem rereads_concatenation (consumes : Consumes g.sum) (below : Rereads g d .sum) :
    Rereads g d .concatenation := by
  intro e n h printable deep rest stop
  obtain ⟨stopped, given | ⟨es, several, list, rfl⟩⟩ := concatenationForm consumes h
  · exact takes_concat_of_sum (below e n given printable deep rest stop) (stop.ne stopped (by decide))
  · exact takes_concat (rereads_list below list printable
      (fun ts member => Nat.le_trans (length_le_separated member) deep) stop) several
      (stop.ne stopped (by decide))

theorem Grammar.Restores.values (restores : g.Restores) {values : Expr}
    (h : Gives g.valueSource values) (printable : values.Printable) (short : values.tokens.length ≤ d) :
    Takes (Grammar.ofDepth d).valueSource values.tokens values rest := by
  obtain ⟨q, given, rfl⟩ | ⟨es, nonempty, given, rfl⟩ := h.of_valueSource
  · simp only [Expr.tokens, parenTokens, List.length_cons, List.length_append] at short
    exact takes_valueSubquery (restores.query d q given.gives printable (by omega))
      (restores.start q given _)
  · simp only [Expr.tokens, parenTokens, List.length_cons, List.length_append] at short
    have list : List.Forall₂ (Grammar.ofDepth d).Reads _ _ := readsNested_list
      (fun e member => restores.nested (given e member) (printable_of_mem printable e member)) (by omega)
    exact takes_valueList (ofDepth_starts d) list nonempty

theorem rereads_comparison (restores : g.Restores) (below : Rereads g d .concatenation) :
    Rereads g d .comparison := by
  intro e n h printable deep rest stop
  -- an operand in front of the word or the operator of a predicate
  have left {e : Expr} {r : List Token} (given : GivesBefore g.concatenation e Level.comparison.rank)
      (p : e.Printable) (short : e.tokens.length ≤ d) (binds : tightness r = 4) :
      Takes (Grammar.ofDepth d).concatenation e.tokens e r :=
    below _ _ given p short r ⟨by omega, .inr binds⟩
  cases comparisonForm h with
  | operand given stopped =>
    exact takes_comparison_of_concat (below _ _ given printable deep rest stop)
      (stop.ne stopped (by decide))
  | is negated _ given operand =>
    obtain ⟨t, literal, tokens, word⟩ := operand.of_isOperand
    simp only [Expr.tokens, List.length_cons, List.length_append, tokens] at deep
    rw [Expr.tokens, Expr.tokens, tokens]
    exact takes_is negated literal word (left given printable.1 (by omega) rfl)
  | between negated given lower upper =>
    simp only [Expr.tokens, List.length_cons, List.length_append] at deep
    obtain ⟨p, pLow, pHigh⟩ := printable
    refine takes_between negated (left given p (by omega) (by cases negated <;> rfl))
      (below _ _ lower pLow (by omega) _ ⟨?_, .inr rfl⟩)
      (below _ _ upper pHigh (by omega) rest stop)
    exact (by decide : 2 ≠ 8)
  | like negated given right =>
    simp only [Expr.tokens, List.length_cons, List.length_append] at deep
    exact takes_like negated (left given printable.1 (by omega) (by cases negated <;> rfl))
      (below _ _ right printable.2 (by omega) rest stop)
  | isIn negated _ given values =>
    simp only [Expr.tokens, List.length_cons, List.length_append] at deep
    exact takes_isIn negated (left given printable.1 (by omega) (by cases negated <;> rfl))
      (restores.values values printable.2 (by omega))
  | compare op given right =>
    simp only [Expr.tokens, List.length_cons, List.length_append] at deep
    have taken := below _ _ right printable.2 (by omega) rest stop
    exact takes_compare (left given printable.1 (by omega) (by cases op <;> rfl)) taken
      ((starts_concatenation _).ahead taken)
  | any op _ given values =>
    simp only [Expr.tokens, List.length_cons, List.length_append] at deep
    exact takes_any (left given printable.1 (by omega) (by cases op <;> rfl))
      (restores.values values printable.2 (by omega))
  | all op _ given values =>
    simp only [Expr.tokens, List.length_cons, List.length_append] at deep
    exact takes_all (left given printable.1 (by omega) (by cases op <;> rfl))
      (restores.values values printable.2 (by omega))

theorem rereads_negation (below : Rereads g d .comparison) : Rereads g d .negation := by
  intro e n h printable deep rest stop
  obtain ⟨ls, rs, run, rfl⟩ := h
  replace run := negationRun run
  induction run with
  | not p _ ih =>
    simp only [Expr.tokens, List.length_cons] at deep
    exact takes_not (ih printable (by omega) stop)
  | comparison run =>
    have taken := below _ _ (.of_run run) printable deep rest stop
    exact fun ls rs tokens following => negation_of_comparison _ (taken ls rs tokens following)

theorem rereads_disjunction (restores : g.Restores) : Rereads g d .disjunction := by
  have consuming := restores.consuming
  have unary : Rereads g d .unary := fun e n h printable deep rest stop =>
    (unaryForm h).takes restores printable deep stop
  have term : Rereads g d .term := fun e n h printable deep rest stop =>
    rereads_chain (l := .term) rfl consuming.unary unary h printable deep stop
  have sum : Rereads g d .sum := fun e n h printable deep rest stop =>
    rereads_chain (l := .sum) rfl consuming.term term h printable deep stop
  have negation : Rereads g d .negation := rereads_negation
    (rereads_comparison restores (rereads_concatenation consuming.sum sum))
  have conjunction : Rereads g d .conjunction := fun e n h printable deep rest stop =>
    rereads_chain (l := .conjunction) rfl consuming.negation negation h printable deep stop
  exact fun e n h printable deep rest stop =>
    rereads_chain (l := .disjunction) rfl consuming.conjunction conjunction h printable deep stop

end

end TableQuery.Language
