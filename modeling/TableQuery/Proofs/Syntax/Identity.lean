import TableQuery.Evaluation.Meaning
import TableQuery.Proofs.Syntax.RoundTrip

/-!
# Canonical text identifies an expression

An expression that is read back from its canonical text is the only one with that text. What was
parsed and needs no quotes and parentheses that canonical text leaves out is such an expression, and
so is every window call in it.
-/

namespace TableQuery.Language

open Language.Grammar

/-- The expression is read back from its canonical text. -/
structure ReadBack (e : Expr) : Prop where
  reads : ReadsNested e
  printable : e.Printable

/-- The expression was parsed somewhere in a text, at any depth of the grammar, and needs none of
the quotes and parentheses that canonical text leaves out. -/
structure Canonical (e : Expr) : Prop where
  parsed : ∃ depth, Gives (Grammar.ofDepth depth).expression e
  printable : e.Printable

section

variable {g : Grammar} {e a b : Expr} {es : List Expr} {name : String}

/-- Both expressions are what the parser gives on the tokens of the one text. -/
theorem ReadBack.eq_of_text_eq (ha : ReadBack a) (hb : ReadBack b) (same : a.text = b.text) :
    a = b := by
  obtain ⟨ls, lexed, tokens⟩ := (Expr.spells a ha.printable).lexemes
  obtain ⟨ls', lexed', tokens'⟩ := (Expr.spells b hb.printable).lexemes
  rw [same, lexed'] at lexed
  obtain rfl : ls' = ls := List.append_cancel_right (Except.ok.inj lexed)
  have first := ha.reads (ls'.length + 1) (by rw [← tokens, List.length_map]; omega) [.ending] rfl
    ls' [⟨.ending, a.text.length⟩] tokens rfl
  have second := hb.reads (ls'.length + 1) (by rw [← tokens', List.length_map]; omega) [.ending] rfl
    ls' [⟨.ending, a.text.length⟩] tokens' rfl
  exact (Prod.mk.inj (Except.ok.inj (first.symm.trans second))).1

theorem Canonical.readBack (h : Canonical e) : ReadBack e := by
  obtain ⟨depth, given⟩ := h.parsed
  exact ⟨(restores_ofDepth depth).nested given h.printable, h.printable⟩

/-! ## Window calls -/

/-- An operand is read as an expression, too, where no operator follows. -/
theorem ReadsDeep.of_unary (h : ReadsDeep .unary e) : ReadsDeep .disjunction e := by
  intro depth deep
  have term : ReadsAt (Grammar.ofDepth depth) .term e.tokens e := .loosen (h depth deep)
  have sum : ReadsAt (Grammar.ofDepth depth) .sum e.tokens e := .loosen term
  have concatenation : ReadsAt (Grammar.ofDepth depth) .concatenation e.tokens e := .loosen sum
  have comparison : ReadsAt (Grammar.ofDepth depth) .comparison e.tokens e := .loosen concatenation
  have negation : ReadsAt (Grammar.ofDepth depth) .negation e.tokens e := .loosen comparison
  have conjunction : ReadsAt (Grammar.ofDepth depth) .conjunction e.tokens e := .loosen negation
  exact .loosen conjunction

theorem CallForm.readBack (restores : g.Restores) (h : CallForm g name e)
    (upper : Text.upper name = name) (printable : e.Printable) : ReadBack e := by
  have operand : ReadsDeep .unary e := by
    intro depth deep
    obtain ⟨ts, tokens⟩ := h.tokens
    have took (rest : List Token) (stop : tightness rest < 8) :
        Takes (Grammar.ofDepth depth).primary e.tokens e rest :=
      h.takes restores upper printable deep (Nat.ne_of_lt stop)
    rw [tokens] at took ⊢
    exact readsAt_of_primary (by simp) took
  exact ⟨(ReadsDeep.of_unary operand).nested, printable⟩

/-- All of the window calls are read back. -/
def ReadBackCalls (calls : List WindowCall) : Prop :=
  ∀ call ∈ calls, ReadBack call.expr

/-- The window calls in what the parser gives are read back. -/
def GivesReadBack (p : Parser Expr) : Prop :=
  ∀ e, Gives p e → e.Printable → ReadBackCalls e.windowCalls

theorem readBackCalls_nil : ReadBackCalls [] :=
  fun _ member => nomatch member

theorem ReadBackCalls.append {calls more : List WindowCall} (h : ReadBackCalls calls)
    (h' : ReadBackCalls more) : ReadBackCalls (calls ++ more) :=
  List.forall_mem_append.2 ⟨h, h'⟩

theorem readBackCalls_list (h : ∀ e ∈ es, ReadBackCalls e.windowCalls) :
    ReadBackCalls (listWindows es) := by
  induction es with
  | nil => exact readBackCalls_nil
  | cons e es ih =>
    rw [List.forall_mem_cons] at h
    exact h.1.append (ih h.2)

namespace GivesReadBack

theorem list (below : GivesReadBack g.expression) (given : ∀ e ∈ es, Gives g.expression e)
    (printable : allPrintable es) : ReadBackCalls (listWindows es) :=
  readBackCalls_list fun e member => below e (given e member) (printable_of_mem printable e member)

theorem arguments (below : GivesReadBack g.expression) (given : ∀ e ∈ es, GivesArgument g e)
    (printable : allPrintable es) : ReadBackCalls (listWindows es) := by
  refine readBackCalls_list fun e member => ?_
  obtain argument | ⟨s, rfl⟩ := given e member
  · exact below e argument (printable_of_mem printable e member)
  · exact readBackCalls_nil

theorem order (below : GivesReadBack g.expression) {order : List OrderItem}
    (given : GivesOrder g order) (printable : orderPrintable order) :
    ReadBackCalls (orderWindows order) := by
  induction order with
  | nil => exact readBackCalls_nil
  | cons item order ih =>
    obtain ⟨key, direction, nulls⟩ := item
    have first := below key (given key direction nulls List.mem_cons_self) printable.1
    have more := ih (fun k d n member => given k d n (List.mem_cons_of_mem _ member)) printable.2
    exact first.append more

theorem option (below : GivesReadBack g.expression) {clause : Option Expr}
    (given : ∀ e ∈ clause, Gives g.expression e) (printable : optionPrintable clause) :
    ReadBackCalls (optionWindows clause) := by
  cases clause with
  | none => exact readBackCalls_nil
  | some e => exact below e (given e rfl) printable

theorem branches (below : GivesReadBack g.expression) {branches : List Branch}
    (given : ∀ condition result, .mk condition result ∈ branches →
      Gives g.expression condition ∧ Gives g.expression result)
    (printable : branchesPrintable branches) : ReadBackCalls (branchWindows branches) := by
  induction branches with
  | nil => exact readBackCalls_nil
  | cons branch branches ih =>
    obtain ⟨condition, result⟩ := branch
    obtain ⟨conditionPrintable, resultPrintable, more⟩ := printable
    have first := given condition result List.mem_cons_self
    refine ReadBackCalls.append ((below condition first.1 conditionPrintable).append
      (below result first.2 resultPrintable)) ?_
    exact ih (fun c r member => given c r (List.mem_cons_of_mem _ member)) more

/-! ## Levels of the grammar -/

theorem call (below : GivesReadBack g.expression) (restores : g.Restores) (h : CallForm g name e)
    (upper : Text.upper name = name) (printable : e.Printable) : ReadBackCalls e.windowCalls := by
  have whole := h.readBack restores upper printable
  cases h with
  | window distinct argsGiven partitionGiven orderGiven =>
    obtain ⟨-, argsPrintable, partitionPrintable, keysPrintable⟩ := printable
    rw [Expr.windowCalls, ReadBackCalls, List.forall_mem_cons]
    exact ⟨whole, ((below.arguments argsGiven argsPrintable).append
      (below.list partitionGiven partitionPrintable)).append (below.order orderGiven keysPrintable)⟩
  | plain distinct argsGiven orderGiven =>
    -- without `OVER` the call is no window call, so only its arguments and keys can hold some
    clear whole
    unfold callOf at printable ⊢
    split at printable <;> rename_i joining
    · rw [if_pos joining]
      obtain ⟨-, -, argsPrintable, keysPrintable⟩ := printable
      exact (below.arguments argsGiven argsPrintable).append (below.order orderGiven keysPrintable)
    · rw [if_neg joining]
      split at printable <;> rename_i aggregate
      · rw [if_pos aggregate]
        exact below.arguments argsGiven printable.2
      · rw [if_neg aggregate]
        exact below.arguments argsGiven printable.2

theorem unary (below : GivesReadBack g.expression) (restores : g.Restores) :
    GivesReadBack g.unary := by
  intro e ⟨ls, rest, run⟩ printable
  obtain ⟨n, form⟩ : ∃ n, UnaryForm g e n := ⟨_, unaryForm (.of_run run)⟩
  clear run
  induction form with
  | signed sign _ ih => exact ih printable.2
  | primary form =>
    cases form with
    | literal | column | allColumns | tableColumns | var | existsIn | subquery =>
      exact readBackCalls_nil
    | @assign name value _ given => exact below value given.gives printable.2
    | @parens inner _ given => exact below inner given printable
    | rowValue _ _ given => exact below.list given printable
    | case _ given =>
      obtain ⟨operandPrintable, branchesPrintable, otherwisePrintable⟩ := printable
      exact ((below.option given.operand operandPrintable).append
        (below.branches given.branches branchesPrintable)).append
        (below.option given.otherwise otherwisePrintable)
    | call word _ form => exact below.call restores form (Text.upper_upper word) printable

/-- An operator of a level that associates to the left keeps the window calls of its operands. -/
theorem windowCalls_of_operator {l : Level} {operator? : Token → Option (Expr → Expr → Expr)}
    {t : Token} {f : Expr → Expr → Expr} (associates : l.operator? = some operator?)
    (operator : operator? t = some f) (a b : Expr) :
    (f a b).windowCalls = a.windowCalls ++ b.windowCalls := by
  cases l <;> cases associates
  all_goals
    cases t with
    | symbol s => cases s <;> cases operator <;> rfl
    | keyword k => cases k <;> cases operator <;> rfl
    | _ => cases operator

theorem chain {l : Level} {operator? : Token → Option (Expr → Expr → Expr)} {operand : Parser Expr}
    (associates : l.operator? = some operator?) (below : GivesReadBack operand) :
    GivesReadBack (Parser.chain operand (Parser.takeOperator? operator?)) := by
  intro e given printable
  replace given := given.of_chain
  induction given with
  | operand given => exact below _ given printable
  | @combine a b f _ operator right ih =>
    obtain ⟨ls, rest, run⟩ := operator
    rw [takeOperator_eq] at run
    cases found : operator? (ahead (ls.map Lexeme.token)) with
    | none =>
      rw [found] at run
      cases run
    | some f' =>
      rw [found] at run
      cases run
      obtain ⟨-, parts⟩ := operator_joins associates found a b
      rw [windowCalls_of_operator associates found]
      exact (ih (parts printable).1).append (below b right (parts printable).2)

theorem concatenation (below : GivesReadBack g.sum) : GivesReadBack g.concatenation := by
  intro e h printable
  obtain ⟨items, list, h⟩ := h.of_bind
  have given := list.of_separatedBy.2
  match items with
  | [item] =>
    rw [h.of_pure] at printable ⊢
    exact below item (given item List.mem_cons_self) printable
  | [] | first :: second :: more =>
    rw [h.of_pure] at printable ⊢
    exact readBackCalls_list fun e member =>
      below e (given e member) (printable_of_mem printable e member)

theorem valueSource (below : GivesReadBack g.expression) : GivesReadBack g.valueSource := by
  intro e h printable
  obtain ⟨q, -, rfl⟩ | ⟨es, -, given, rfl⟩ := h.of_valueSource
  · exact readBackCalls_nil
  · exact below.list given printable

theorem comparison (operands : GivesReadBack g.concatenation)
    (values : GivesReadBack g.valueSource) : GivesReadBack g.comparison := by
  intro e ⟨ls, rest, run⟩ printable
  cases comparisonForm (.of_run run) with
  | operand given => exact operands _ given.gives printable
  | is _ _ given => exact (operands _ given.gives printable.1).append readBackCalls_nil
  | between _ given lower upper =>
    obtain ⟨p, pLow, pHigh⟩ := printable
    exact ((operands _ given.gives p).append (operands _ lower.gives pLow)).append
      (operands _ upper.gives pHigh)
  | like _ given right | compare _ given right =>
    exact (operands _ given.gives printable.1).append (operands _ right.gives printable.2)
  | isIn _ _ given right | any _ _ given right | all _ _ given right =>
    exact (operands _ given.gives printable.1).append (values _ right printable.2)

theorem negation (below : GivesReadBack g.comparison) : GivesReadBack g.negation := by
  intro e ⟨ls, rest, run⟩ printable
  replace run := negationRun run
  induction run with
  | not _ _ ih => exact ih printable
  | comparison run => exact below _ ⟨_, _, run⟩ printable

theorem disjunction (below : GivesReadBack g.expression) (restores : g.Restores) :
    GivesReadBack g.disjunction := by
  have sum : GivesReadBack g.sum :=
    chain (l := .sum) rfl (chain (l := .term) rfl (below.unary restores))
  have negation : GivesReadBack g.negation :=
    (comparison sum.concatenation below.valueSource).negation
  exact chain (l := .disjunction) rfl (chain (l := .conjunction) rfl negation)

theorem ofDepth : ∀ depth, GivesReadBack (Grammar.ofDepth depth).expression
  | 0 => fun _ given => absurd given not_gives_unexpected
  | depth + 1 => (ofDepth depth).disjunction (restores_ofDepth depth)

end GivesReadBack

theorem Canonical.windowCalls (h : Canonical e) : ReadBackCalls e.windowCalls := by
  obtain ⟨depth, given⟩ := h.parsed
  exact GivesReadBack.ofDepth depth e given h.printable

/-! ## Parsed queries -/

/-- The fields of a select list and the sort keys behind it were parsed and can be printed. -/
structure CanonicalParts (fields : List Field) (order : List OrderItem) : Prop where
  fields : ∀ e aliasName, .mk e aliasName ∈ fields → Canonical e
  order : ∀ e direction nulls, .mk e direction nulls ∈ order → Canonical e

variable {fields : List Field} {order : List OrderItem}

theorem printable_of_field {aliasName : Option String} (h : fieldsPrintable fields)
    (member : .mk e aliasName ∈ fields) : e.Printable := by
  induction fields with
  | nil => cases member
  | cons field fields ih =>
    obtain ⟨e', aliasName'⟩ := field
    rcases List.mem_cons.1 member with same | member
    · obtain ⟨rfl, -⟩ := Field.mk.inj same
      exact h.1
    · exact ih h.2.2 member

theorem printable_of_key {direction : Option Direction} {nulls : Option NullPlacement}
    (h : orderPrintable order) (member : .mk e direction nulls ∈ order) : e.Printable := by
  induction order with
  | nil => cases member
  | cons item order ih =>
    obtain ⟨e', direction', nulls'⟩ := item
    rcases List.mem_cons.1 member with same | member
    · obtain ⟨rfl, -, -⟩ := OrderItem.mk.inj same
      exact h.1
    · exact ih h.2 member

/-- A body that is no set operation is an operand of one. -/
theorem Gives.of_setOps {operand : Parser Body} {op? : Token → Option SetOp} {body : Body}
    (h : Gives (Parser.chain operand (takeSetOp? op?)) body)
    (single : ∀ op all left right, body ≠ .combine op all left right) : Gives operand body := by
  cases h.of_chain with
  | operand given => exact given
  | combine _ operator _ =>
    obtain ⟨_, op, all, -, rfl⟩ := operator.of_takeSetOp
    exact absurd rfl (single _ _ _ _)

theorem canonicalParts_of_parsed {text : String} {recursive distinct : Bool}
    {tables : List InlineDef} {sources : List Source} {condition having offset : Option Expr}
    {groups : List Expr} {limit : Limit}
    (parsed : parseQuery text = .ok (.mk recursive tables
      (.select distinct fields sources condition groups having) order offset limit))
    (fieldsPrintable : fieldsPrintable fields) (orderPrintable : orderPrintable order) :
    CanonicalParts fields order := by
  obtain ⟨ls, rest, -, run⟩ := parseWith_eq_ok.1 parsed
  obtain ⟨q, given, statement⟩ := Gives.of_bind ⟨ls, rest, run⟩
  obtain ⟨_, -, statement⟩ := statement.of_bind
  obtain ⟨_, -, statement⟩ := statement.of_bind
  obtain rfl := statement.of_pure
  generalize ls.length = depth at given
  match depth with
  | 0 => exact absurd given not_gives_unexpected
  | depth + 1 =>
    have parts := Gives.of_fullQuery (g := Grammar.ofDepth depth) given
    have body := (Gives.of_setOps (Gives.of_setOps parts.body nofun) nofun).of_bodyPrimary
    cases body with
    | select _ _ fieldsGiven =>
      refine ⟨fun e aliasName member => ?_, fun e direction nulls member => ?_⟩
      · exact ⟨⟨_, fieldsGiven e aliasName member⟩, printable_of_field fieldsPrintable member⟩
      · exact ⟨⟨_, parts.order e direction nulls member⟩, printable_of_key orderPrintable member⟩

end

end TableQuery.Language
