import TableQuery.Proofs.Syntax.Nesting
import TableQuery.Proofs.Syntax.Spelling

/-!
# Canonical text keeps the structure of operators

Canonical text has no parentheses but those of the expression itself. An expression whose operands
bind at least as tightly as the grammar asks for is read back from its text.
-/

namespace TableQuery

open TableQuery.Language TableQuery.Language.Grammar

namespace Language

/-! ## Levels -/

/-- The level of the operands of a level, which bind tighter. -/
def Level.tighter : Level → Level
  | disjunction => conjunction
  | conjunction => negation
  | negation => comparison
  | comparison => concatenation
  | concatenation => sum
  | sum => term
  | term => unary
  | unary => unary

/-- The operators of a level that associate to the left. -/
def Level.operator? : Level → Option (Token → Option (Expr → Expr → Expr))
  | disjunction => some (logicOp? .or .or)
  | conjunction => some (logicOp? .and .and)
  | sum => some termOp?
  | term => some factorOp?
  | negation | comparison | concatenation | unary => none

/-- The grammar reads the tokens as an expression of the level. Where operators associate to the
left, another one of the level may follow; otherwise only a looser one. -/
def ReadsAt (g : Grammar) (l : Level) (ts : List Token) (e : Expr) : Prop :=
  match l.operator? with
  | some operator? => ∀ rest, tightness rest ≤ l.rank →
    Leads (g.at l.tighter) (Parser.takeOperator? operator?) ts e rest
  | none => ∀ rest, tightness rest < l.rank → Takes (g.at l) ts e rest

section

variable {g : Grammar} {l : Level} {ts rest : List Token} {e : Expr}

theorem ReadsAt.takes (h : ReadsAt g l ts e) (stop : tightness rest < l.rank) :
    Takes (g.at l) ts e rest := by
  cases l with
  | disjunction =>
    exact (h rest (Nat.le_of_lt stop)).takes
      (takes_operator_none (logicOp?_ahead (Nat.ne_of_lt stop) fun _ => rfl))
  | conjunction =>
    exact (h rest (Nat.le_of_lt stop)).takes
      (takes_operator_none (logicOp?_ahead (Nat.ne_of_lt stop) fun _ => rfl))
  | sum =>
    exact (h rest (Nat.le_of_lt stop)).takes
      (takes_operator_none (termOp?_ahead (Nat.ne_of_lt stop)))
  | term =>
    exact (h rest (Nat.le_of_lt stop)).takes
      (takes_operator_none (factorOp?_ahead (Nat.ne_of_lt stop)))
  | negation | comparison | concatenation | unary => exact h rest stop

/-- What binds tighter is read at a looser level. -/
theorem ReadsAt.loosen (h : ReadsAt g l.tighter ts e) : ReadsAt g l ts e := by
  cases l with
  | disjunction | conjunction | sum | term =>
    exact fun rest stop => (h.takes (Nat.lt_succ_of_le stop)).leads
  | negation =>
    intro rest stop ls rs tokens following
    exact negation_of_comparison g (h.takes (Nat.lt_succ_of_lt stop) ls rs tokens following)
  | comparison =>
    intro rest stop
    exact takes_comparison_of_concat (h.takes (Nat.lt_succ_of_lt stop)) (Nat.ne_of_lt stop)
  | concatenation =>
    intro rest stop
    exact takes_concat_of_sum (h.takes (Nat.lt_succ_of_lt stop)) (Nat.ne_of_lt stop)
  | unary => exact h

/-- An operator of the level between two operands, of which the right one binds tighter. -/
theorem ReadsAt.operator {operator? : Token → Option (Expr → Expr → Expr)}
    {combine : Expr → Expr → Expr} {t : Token} {us : List Token} {b : Expr} (left : ReadsAt g l ts e)
    (associates : l.operator? = some operator?) (operator : operator? t = some combine)
    (rank : ∀ r, tightness (t :: r) = l.rank) (right : ReadsAt g l.tighter us b) :
    ReadsAt g l (ts ++ t :: us) (combine e b) := by
  cases l with
  | disjunction | conjunction | sum | term =>
    obtain rfl := Option.some.inj associates
    intro rest stop
    exact Leads.operator (left _ (Nat.le_of_eq (rank _))) operator
      (right.takes (Nat.lt_succ_of_le stop))
  | negation | comparison | concatenation | unary => cases associates

end

end Language

/-! ## Expressions of a level -/

def ArithOp.level : ArithOp → Level
  | .add | .subtract => .sum
  | .multiply | .divide | .remainder => .term

def LogicOp.level : LogicOp → Level
  | .and => .conjunction
  | .or => .disjunction

/-- The expressions of a level: literals, names, calls and case distinctions, combined by operators
whose operands bind at least as tightly as the grammar asks for. A number below zero is a literal,
so that no minus sign stands in front of a number; two minus signs in a row would be a comment. -/
inductive Leveled : Level → Expr → Prop
  | integer {i : Int64} : i ≠ Int64.minValue → Leveled .unary (.literal (.integer i))
  | text (s : String) : Leveled .unary (.literal (.text s))
  | truth (t : Truth) : Leveled .unary (.literal (.truth t))
  | null : Leveled .unary (.literal .null)
  | column {name : String} : isPlain name → Leveled .unary (.column none name)
  | tableColumn {table name : String} : isPlain table → isPlain name →
    Leveled .unary (.column (some table) name)
  | var {name : String} : isVariableName name → Leveled .unary (.variable name)
  | parens {e : Expr} : Leveled .disjunction e → Leveled .unary (.parens e)
  | rowValue {items : List Expr} : 2 ≤ items.length → (∀ e ∈ items, Leveled .disjunction e) →
    Leveled .unary (.rowValue items)
  | call {name : String} {args : List Expr} : isPlain name → Text.upper name = name →
    Aggregate.ofName? name = none → name ∉ joiningNames → (∀ e ∈ args, Leveled .disjunction e) →
    Leveled .unary (.call name args)
  | case {operand otherwise : Option Expr} {branches : List Branch} :
    (∀ e ∈ operand, Leveled .disjunction e) → branches ≠ [] →
    (∀ condition result, .mk condition result ∈ branches → Leveled .disjunction condition) →
    (∀ condition result, .mk condition result ∈ branches → Leveled .disjunction result) →
    (∀ e ∈ otherwise, Leveled .disjunction e) → Leveled .unary (.case operand branches otherwise)
  | plus {e : Expr} : Leveled .unary e → Leveled .unary (.signed .plus e)
  | minus {e : Expr} : Leveled .unary e → (∀ i, e ≠ .literal (.integer i)) →
    e.text.toList.head? ≠ some '-' → Leveled .unary (.signed .minus e)
  | arith {op : ArithOp} {a b : Expr} : Leveled op.level a → Leveled op.level.tighter b →
    Leveled op.level (.arith op a b)
  | concat {items : List Expr} : 2 ≤ items.length → (∀ e ∈ items, Leveled .sum e) →
    Leveled .concatenation (.concat items)
  | compare {op : CompareOp} {a b : Expr} : Leveled .concatenation a → Leveled .concatenation b →
    Leveled .comparison (.compare op a b)
  | isNull {negated : Bool} {e : Expr} : Leveled .concatenation e →
    Leveled .comparison (.is negated e (.literal .null))
  | isTruth {negated : Bool} {e : Expr} (t : Truth) : Leveled .concatenation e →
    Leveled .comparison (.is negated e (.literal (.truth t)))
  | between {negated : Bool} {e low high : Expr} : Leveled .concatenation e →
    Leveled .concatenation low → Leveled .concatenation high →
    Leveled .comparison (.between negated e low high)
  | like {negated : Bool} {e pattern : Expr} : Leveled .concatenation e →
    Leveled .concatenation pattern → Leveled .comparison (.like negated e pattern)
  | isIn {negated : Bool} {e : Expr} {items : List Expr} : Leveled .concatenation e →
    items ≠ [] → (∀ e ∈ items, Leveled .disjunction e) →
    Leveled .comparison (.isIn negated e (.valueList items))
  | not {e : Expr} : Leveled .negation e → Leveled .negation (.not e)
  | logic {op : LogicOp} {a b : Expr} : Leveled op.level a → Leveled op.level.tighter b →
    Leveled op.level (.logic op a b)
  | loosen {l : Level} {e : Expr} : Leveled l.tighter e → Leveled l e

section

variable {l : Level} {e : Expr} {es : List Expr}

/-- An operand without operators is one of every level. -/
theorem Leveled.of_unary (h : Leveled .unary e) : Leveled l e := by
  have term : Leveled .term e := .loosen h
  have sum : Leveled .sum e := .loosen term
  have concatenation : Leveled .concatenation e := .loosen sum
  have comparison : Leveled .comparison e := .loosen concatenation
  have negation : Leveled .negation e := .loosen comparison
  have conjunction : Leveled .conjunction e := .loosen negation
  cases l with
  | disjunction => exact .loosen conjunction
  | _ => assumption

theorem allPrintable_of_each (h : ∀ e ∈ es, e.Printable) : allPrintable es := by
  induction es with
  | nil => trivial
  | cons e es ih =>
    rw [List.forall_mem_cons] at h
    exact ⟨h.1, ih h.2⟩

theorem branchesPrintable_of_each {branches : List Branch}
    (h : ∀ condition result, .mk condition result ∈ branches →
      condition.Printable ∧ result.Printable) : branchesPrintable branches := by
  induction branches with
  | nil => trivial
  | cons branch branches ih =>
    obtain ⟨condition, result⟩ := branch
    have first := h condition result List.mem_cons_self
    exact ⟨first.1, first.2, ih fun c r member => h c r (List.mem_cons_of_mem _ member)⟩

theorem optionPrintable_of_each {clause : Option Expr} (h : ∀ e ∈ clause, e.Printable) :
    optionPrintable clause := by
  cases clause with
  | none => trivial
  | some e => exact h e rfl

/-- No float is among the expressions of a level. -/
theorem Leveled.isNumber (h : Leveled l e) (number : ∀ i, e ≠ .literal (.integer i)) :
    e.isNumber = false := by
  induction h with
  | integer _ => exact absurd rfl (number _)
  | loosen _ ih => exact ih number
  | _ => rfl

theorem Leveled.printable (h : Leveled l e) : e.Printable := by
  induction h with
  | integer h => exact h
  | text | truth | null => trivial
  | column h => exact h
  | tableColumn h h' => exact ⟨h, h'⟩
  | var h => exact h
  | parens _ ih | plus _ ih | not _ ih | loosen _ ih => first | exact ih | exact ⟨by simp, ih⟩
  | rowValue _ _ ih | concat _ _ ih => exact allPrintable_of_each ih
  | call plain _ _ _ _ ih => exact ⟨plain, allPrintable_of_each ih⟩
  | case _ _ _ _ _ ihOperand ihCondition ihResult ihOtherwise =>
    exact ⟨optionPrintable_of_each ihOperand,
      branchesPrintable_of_each fun c r member => ⟨ihCondition c r member, ihResult c r member⟩,
      optionPrintable_of_each ihOtherwise⟩
  | minus unary number single ih => exact ⟨fun _ => ⟨single, unary.isNumber number⟩, ih⟩
  | arith _ _ iha ihb | compare _ _ iha ihb | like _ _ iha ihb | logic _ _ iha ihb =>
    exact ⟨iha, ihb⟩
  | isNull _ ih | isTruth _ _ ih => exact ⟨ih, trivial⟩
  | between _ _ _ ih ihLow ihHigh => exact ⟨ih, ihLow, ihHigh⟩
  | isIn _ _ _ ih ihItems => exact ⟨ih, allPrintable_of_each ihItems⟩

/-! ## Reading -/

variable {g : Grammar} {ts : List Token}

/-- An operand that starts with no sign. -/
theorem readsAt_of_primary {t : Token} (unsigned : t ≠ .symbol .minus ∧ t ≠ .symbol .plus)
    (h : ∀ rest, tightness rest < 8 → Takes g.primary (t :: ts) e rest) :
    ReadsAt g .unary (t :: ts) e :=
  fun rest stop => takes_unary_of_primary (h rest stop) unsigned

theorem readsAt_literal {t : Token} {lit : Literal}
    (unsigned : t ≠ .symbol .minus ∧ t ≠ .symbol .plus) (h : literal? t = some lit) :
    ReadsAt g .unary [t] (.literal lit) :=
  readsAt_of_primary unsigned fun _ _ => takes_literal h

theorem literal?_keyword (t : Truth) : literal? (.keyword t.keyword) = some (.truth t) := by
  cases t <;> rfl

theorem forall₂_exprTokens {R : List Token → Expr → Prop} (h : ∀ e ∈ es, R e.tokens e) :
    List.Forall₂ R (exprTokens es) es := by
  induction es with
  | nil => exact .nil
  | cons e es ih =>
    rw [List.forall_mem_cons] at h
    exact .cons h.1 (ih h.2)

theorem length_le_separated {separator : Symbol} {items : List (List Token)} (h : ts ∈ items) :
    ts.length ≤ (separated separator items).length := by
  fun_induction separated separator items with
  | case1 => cases h
  | case2 us => rw [List.mem_singleton.1 h]
  | case3 us vs items ih =>
    rw [List.length_append, List.length_cons]
    rcases List.mem_cons.1 h with rfl | h
    · omega
    · have rest := ih h
      omega

theorem tokens_mem_exprTokens (h : e ∈ es) : e.tokens ∈ exprTokens es := by
  induction es with
  | nil => cases h
  | cons e' es ih =>
    rcases List.mem_cons.1 h with rfl | h
    · exact List.mem_cons_self
    · exact List.mem_cons_of_mem _ (ih h)

theorem length_lt_branchTokens {branches : List Branch} {condition result : Expr}
    (h : .mk condition result ∈ branches) :
    condition.tokens.length < (branchTokens branches).length ∧
      result.tokens.length < (branchTokens branches).length := by
  induction branches with
  | nil => cases h
  | cons branch branches ih =>
    obtain ⟨condition', result'⟩ := branch
    simp only [branchTokens, List.length_cons, List.length_append]
    rcases List.mem_cons.1 h with same | h
    · obtain ⟨rfl, rfl⟩ := Branch.mk.inj same
      omega
    · have rest := ih h
      omega

/-! ## Nested expressions -/

/-- At every depth that its tokens allow, the expression is read as one of the level. -/
def ReadsDeep (l : Level) (e : Expr) : Prop :=
  ∀ depth, e.tokens.length ≤ depth → ReadsAt (Grammar.ofDepth depth) l e.tokens e

/-- At every depth beyond the number of its tokens, the expression is read where no operator
follows. -/
def ReadsNested (e : Expr) : Prop :=
  ∀ depth, e.tokens.length < depth → (Grammar.ofDepth depth).Reads e.tokens e

theorem ReadsDeep.nested (h : ReadsDeep .disjunction e) : ReadsNested e := by
  intro depth deep
  obtain ⟨d, rfl⟩ := Nat.exists_eq_succ_of_ne_zero (Nat.ne_of_gt (Nat.zero_lt_of_lt deep))
  intro rest stop
  exact (h d (Nat.le_of_lt_succ deep)).takes (stop ▸ Nat.zero_lt_one)

theorem readsNested_list {depth : Nat} (h : ∀ e ∈ es, ReadsNested e)
    (deep : (commaTokens (exprTokens es)).length < depth) :
    List.Forall₂ (Grammar.ofDepth depth).Reads (exprTokens es) es := by
  refine forall₂_exprTokens fun e member => h e member depth ?_
  exact Nat.lt_of_le_of_lt (length_le_separated (tokens_mem_exprTokens member)) deep

theorem readsNested_branches {depth : Nat} {branches : List Branch}
    (h : ∀ condition result, .mk condition result ∈ branches →
      ReadsNested condition ∧ ReadsNested result)
    (deep : (branchTokens branches).length ≤ depth) :
    (Grammar.ofDepth depth).ReadsBranches branches := by
  induction branches with
  | nil => trivial
  | cons branch branches ih =>
    obtain ⟨condition, result⟩ := branch
    have here := h condition result List.mem_cons_self
    have member : Branch.mk condition result ∈ .mk condition result :: branches := List.mem_cons_self
    have short := length_lt_branchTokens member
    simp only [branchTokens, List.length_cons, List.length_append] at deep short
    refine ⟨here.1 depth (by omega), here.2 depth (by omega), ih (fun c r member => ?_) (by omega)⟩
    exact h c r (List.mem_cons_of_mem _ member)

theorem readsNested_option {depth : Nat} {clause : Option Expr}
    (h : ∀ e ∈ clause, ReadsNested e) (lead : List Token)
    (deep : (clauseTokens lead clause).length < depth) :
    (Grammar.ofDepth depth).ReadsOption clause := by
  rintro e member
  obtain rfl : clause = some e := member
  simp only [clauseTokens, List.length_append] at deep
  exact h e rfl depth (by omega)

/-- An operand of a minus sign that is no number starts with no number. -/
theorem Leveled.head_tokens (h : Leveled .unary e) (number : ∀ i, e ≠ .literal (.integer i)) :
    ∃ t us, e.tokens = t :: us ∧ (∀ i, t ≠ .integer i) ∧ ∀ f, t ≠ .float f := by
  generalize same : Level.unary = l at h
  induction h with
  | integer _ => exact absurd rfl (number _)
  | arith => rename_i op _ _ _ _ _ _; cases op <;> cases same
  | logic => rename_i op _ _ _ _ _ _; cases op <;> cases same
  | loosen _ ih => subst same; exact ih number rfl
  | concat | compare | isNull | isTruth | between | like | isIn | not => cases same
  | _ => exact ⟨_, _, rfl, by simp, by simp⟩

theorem Leveled.readsDeep (h : Leveled l e) : ReadsDeep l e := by
  induction h with
  | @integer i h =>
    intro depth _
    rw [Expr.tokens, Literal.tokens]
    split
    · intro rest _
      have took : Takes (Grammar.ofDepth depth).unary _ _ rest := takes_negative_integer (-i)
      rwa [Int64.neg_neg] at took
    · exact readsAt_literal (by simp) rfl
  | text | null => exact fun _ _ => readsAt_literal (by simp) rfl
  | truth t => exact fun _ _ => readsAt_literal (by simp) (literal?_keyword t)
  | column =>
    exact fun _ _ => readsAt_of_primary (by simp) fun _ stop => takes_column _ (Nat.ne_of_lt stop)
  | tableColumn => exact fun _ _ => readsAt_of_primary (by simp) fun _ _ => takes_tableColumn _ _
  | var =>
    exact fun _ _ => readsAt_of_primary (by simp) fun _ stop => takes_variable _ (Nat.ne_of_lt stop)
  | parens _ ih =>
    intro depth deep
    simp only [Expr.tokens, parenTokens, List.length_cons, List.length_append] at deep
    exact readsAt_of_primary (by simp) fun _ _ =>
      takes_primary_parens (takes_parens (ofDepth_starts depth) (ih.nested depth (by omega)))
  | rowValue several _ ih =>
    intro depth deep
    simp only [Expr.tokens, parenTokens, List.length_cons, List.length_append] at deep
    have list : List.Forall₂ (Grammar.ofDepth depth).Reads _ _ :=
      readsNested_list (fun e member => (ih e member).nested) (by omega)
    exact readsAt_of_primary (by simp) fun _ _ =>
      takes_primary_parens (takes_rowValue (ofDepth_starts depth) list several)
  | @call name args plain upper scalar other _ ih =>
    intro depth deep
    simp only [Expr.tokens, parenTokens, List.length_cons, List.length_append] at deep
    have list : List.Forall₂ (Grammar.ofDepth depth).Reads _ _ :=
      readsNested_list (fun e member => (ih e member).nested) (by omega)
    have called : callOf name false args [] = .call name args := by simp [callOf, scalar, other]
    refine readsAt_of_primary (by simp) fun rest stop => ?_
    have took : Takes (Grammar.ofDepth depth).primary (.identifier name
        :: parenTokens (tokenIf false (.keyword .distinct) ++ commaTokens (exprTokens args)))
        (callOf name false args []) rest :=
      takes_call (ofDepth_starts depth) upper list (Nat.ne_of_lt stop)
    rwa [called] at took
  | @case operand otherwise branches _ nonempty _ _ _ ihOperand ihCondition ihResult ihOtherwise =>
    intro depth deep
    simp only [Expr.tokens, List.length_cons, List.length_append, List.length_nil] at deep
    have readsOperand : (Grammar.ofDepth depth).ReadsOption operand :=
      readsNested_option (fun e member => (ihOperand e member).nested) [] (by omega)
    have readsBranches : (Grammar.ofDepth depth).ReadsBranches branches :=
      readsNested_branches (fun c r member =>
        ⟨(ihCondition c r member).nested, (ihResult c r member).nested⟩) (by omega)
    have readsOtherwise : (Grammar.ofDepth depth).ReadsOption otherwise :=
      readsNested_option (fun e member => (ihOtherwise e member).nested) [.keyword .else] (by omega)
    exact readsAt_of_primary (by simp) fun _ _ =>
      takes_case (ofDepth_starts depth) readsOperand readsBranches nonempty readsOtherwise
  | plus _ ih =>
    intro depth deep rest stop
    simp only [Expr.tokens, List.length_cons] at deep
    exact takes_plus (ih depth (by omega) rest stop)
  | @minus e unary number _ ih =>
    intro depth deep rest stop
    simp only [Expr.tokens, List.length_cons] at deep
    obtain ⟨t, us, tokens, integer, float⟩ := unary.head_tokens number
    have inner := ih depth (by omega) rest stop
    rw [tokens] at inner
    rw [Expr.tokens, tokens]
    exact takes_minus inner integer float
  | @arith op a b _ _ iha ihb =>
    intro depth deep
    simp only [Expr.tokens, List.length_cons, List.length_append] at deep
    have left := iha depth (by omega)
    have right := ihb depth (by omega)
    cases op <;> exact left.operator rfl rfl (fun _ => rfl) right
  | @concat items several _ ih =>
    intro depth deep rest stop
    have each : ∀ e ∈ items, e.tokens.length ≤ depth := fun e member =>
      Nat.le_trans (length_le_separated (tokens_mem_exprTokens member)) deep
    refine takes_concat (TakesList.of_each (forall₂_exprTokens fun e member r follow => ?_)) several
      (Nat.ne_of_lt stop)
    refine (ih e member depth (each e member)).takes ?_
    rcases follow with rfl | follow
    · exact Nat.lt_succ_of_lt stop
    · rw [tightness_ahead follow (by simp) fun _ => rfl]
      exact Nat.lt_succ_self _
  | @compare op a b _ _ iha ihb =>
    intro depth deep rest stop
    simp only [Expr.tokens, List.length_cons, List.length_append] at deep
    have left := iha depth (by omega)
    have right := (ihb depth (by omega)).takes (Nat.lt_succ_of_lt stop)
    have start := (starts_concatenation _).ahead right
    exact takes_compare (left.takes (by cases op <;> exact Nat.lt_succ_self _)) right start
  | @isNull negated e _ ih =>
    intro depth deep rest _
    simp only [Expr.tokens, List.length_cons, List.length_append] at deep
    have left := ih depth (by omega)
    exact takes_is negated rfl (.inl rfl) (left.takes (Nat.lt_succ_self _))
  | @isTruth negated e t _ ih =>
    intro depth deep rest _
    simp only [Expr.tokens, List.length_cons, List.length_append] at deep
    have left := ih depth (by omega)
    exact takes_is negated (literal?_keyword t) (by cases t <;> simp [Truth.keyword])
      (left.takes (Nat.lt_succ_self _))
  | @between negated e low high _ _ _ ih ihLow ihHigh =>
    intro depth deep rest stop
    simp only [Expr.tokens, List.length_cons, List.length_append] at deep
    have left := ih depth (by omega)
    have lower := ihLow depth (by omega)
    have upper := ihHigh depth (by omega)
    exact takes_between negated (left.takes (by cases negated <;> exact Nat.lt_succ_self _))
      (lower.takes (by rw [tightness]; decide)) (upper.takes (Nat.lt_succ_of_lt stop))
  | @like negated e pattern _ _ ih ihPattern =>
    intro depth deep rest stop
    simp only [Expr.tokens, List.length_cons, List.length_append] at deep
    have left := ih depth (by omega)
    have right := ihPattern depth (by omega)
    exact takes_like negated (left.takes (by cases negated <;> exact Nat.lt_succ_self _))
      (right.takes (Nat.lt_succ_of_lt stop))
  | @isIn negated e items _ nonempty _ ih ihItems =>
    intro depth deep rest stop
    simp only [Expr.tokens, parenTokens, List.length_cons, List.length_append] at deep
    have left := ih depth (by omega)
    have list : List.Forall₂ (Grammar.ofDepth depth).Reads _ _ :=
      readsNested_list (fun e member => (ihItems e member).nested) (by omega)
    exact takes_isIn negated (left.takes (by cases negated <;> exact Nat.lt_succ_self _))
      (takes_valueList (ofDepth_starts depth) list nonempty)
  | not _ ih =>
    intro depth deep rest stop
    simp only [Expr.tokens, List.length_cons] at deep
    exact takes_not (ih depth (by omega) rest stop)
  | @logic op a b _ _ iha ihb =>
    intro depth deep
    simp only [Expr.tokens, List.length_cons, List.length_append] at deep
    have left := iha depth (by omega)
    have right := ihb depth (by omega)
    cases op <;> exact left.operator rfl rfl (fun _ => rfl) right
  | loosen _ ih => exact fun depth deep => (ih depth deep).loosen

/-- An expression whose operands bind tightly enough is read back from its canonical text, to the end
of the text. -/
theorem canonical_text_reads_back (h : Leveled .disjunction e) :
    ∃ ls, lexemes e.text = .ok ls ∧
      (Grammar.ofDepth ls.length).expression ls = .ok (e, [⟨.ending, e.text.length⟩]) := by
  obtain ⟨ls, lexed, tokens⟩ := (Expr.spells e h.printable).lexemes
  refine ⟨_, lexed, ?_⟩
  have deep : e.tokens.length < (ls ++ [(⟨.ending, e.text.length⟩ : Lexeme)]).length := by
    rw [← tokens, List.length_map, List.length_append]
    exact Nat.lt_succ_self _
  exact h.readsDeep.nested _ deep [.ending] rfl ls [⟨.ending, e.text.length⟩] tokens rfl

end

/-- The difference in `negatedRange`. -/
def negatedRangeLow : Expr :=
  .arith .subtract (.signed .minus (.column none "b")) (.literal (.integer (-2)))

/-- The call in `negatedRange`. -/
def negatedRangeCall : Expr :=
  .call "ABS" [.logic .and (.column none "c") (.variable "v")]

/-- The expression `NOT a NOT BETWEEN -b - -2 || ABS(c AND @v) AND (NULL OR TRUE) OR d IN (1, 'x')`. -/
def negatedRange : Expr :=
  .logic .or
    (.not (.between true (.column none "a") (.concat [negatedRangeLow, negatedRangeCall])
      (.parens (.logic .or (.literal .null) (.literal (.truth .yes))))))
    (.isIn false (.column none "d") (.valueList [.literal (.integer 1), .literal (.text "x")]))

theorem canonical_text_reads_back_negatedRange :
    Leveled .disjunction negatedRange ∧ ∃ ls, lexemes negatedRange.text = .ok ls ∧
      (Grammar.ofDepth ls.length).expression ls
        = .ok (negatedRange, [⟨.ending, negatedRange.text.length⟩]) := by
  have column (l : Level) {name : String} (plain : isPlain name) : Leveled l (.column none name) :=
    (Leveled.column plain).of_unary
  have number (l : Level) {i : Int64} (bound : i ≠ Int64.minValue) :
      Leveled l (.literal (.integer i)) :=
    (Leveled.integer bound).of_unary
  have minus : Leveled .unary (.signed .minus (.column none "b")) :=
    .minus (column .unary (by decide)) (by simp) (by decide)
  have low : Leveled ArithOp.subtract.level negatedRangeLow :=
    .arith minus.of_unary (number .term (by decide))
  have conjunction : Leveled LogicOp.and.level (.logic .and (.column none "c") (.variable "v")) :=
    .logic (column .conjunction (by decide)) (Leveled.var (by decide)).of_unary
  have call : Leveled .unary negatedRangeCall := by
    refine .call (by decide) (by decide) (by decide) (by decide) fun e member => ?_
    rw [List.mem_singleton.1 member]
    exact .loosen conjunction
  have concat : Leveled .concatenation (.concat [negatedRangeLow, negatedRangeCall]) := by
    refine .concat (by decide) fun e member => ?_
    rcases List.mem_pair.1 member with rfl | rfl
    · exact low
    · exact call.of_unary
  have disjunction : Leveled LogicOp.or.level
      (.logic .or (.literal .null) (.literal (.truth .yes))) :=
    .logic Leveled.null.of_unary (Leveled.truth .yes).of_unary
  have range : Leveled .comparison (.between true (.column none "a")
      (.concat [negatedRangeLow, negatedRangeCall])
      (.parens (.logic .or (.literal .null) (.literal (.truth .yes))))) :=
    .between (column .concatenation (by decide)) concat (Leveled.parens disjunction).of_unary
  have items : Leveled .comparison (.isIn false (.column none "d")
      (.valueList [.literal (.integer 1), .literal (.text "x")])) := by
    refine .isIn (column .concatenation (by decide)) (by simp) fun e member => ?_
    rcases List.mem_pair.1 member with rfl | rfl
    · exact number .disjunction (by decide)
    · exact (Leveled.text "x").of_unary
  have negation : Leveled .negation _ := .not (.loosen range)
  have whole : Leveled LogicOp.or.level negatedRange :=
    .logic (.loosen (.loosen negation)) (.loosen (.loosen items))
  exact ⟨whole, canonical_text_reads_back whole⟩

end TableQuery
