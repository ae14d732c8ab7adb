import TableQuery.Proofs.Syntax.Consumption
import TableQuery.Proofs.Syntax.Precedence
import TableQuery.Proofs.Syntax.Results

/-!
# What operands are given in front of

An operand ends in front of the operator behind it, or where the whole expression ends. How tightly
the tokens there bind is kept along with the operand: an assignment takes all operators that it can,
so it is an operand in front of few of them.
-/

namespace TableQuery.Language

open Language.Grammar

/-- The parser gives the result in front of tokens that bind with the tightness. -/
def GivesBefore {α : Type} (p : Parser α) (a : α) (n : Nat) : Prop :=
  ∃ ls rest, p ls = .ok (a, rest) ∧ tightness (rest.map Lexeme.token) = n

section

variable {α β : Type} {p q : Parser α} {f : α → Parser β} {g : α → β} {a : α} {b : β} {n : Nat}

theorem GivesBefore.of_run {ls rest : List Lexeme} (run : p ls = .ok (a, rest)) :
    GivesBefore p a (tightness (rest.map Lexeme.token)) :=
  ⟨ls, rest, run, rfl⟩

theorem GivesBefore.gives (h : GivesBefore p a n) : Gives p a := by
  obtain ⟨ls, rest, run, -⟩ := h
  exact ⟨ls, rest, run⟩

theorem GivesBefore.of_bind (h : GivesBefore (p >>= f) b n) :
    ∃ a, Gives p a ∧ GivesBefore (f a) b n := by
  obtain ⟨ls, rest, run, follow⟩ := h
  obtain ⟨a, mid, first, second⟩ := bind_eq_ok.1 run
  exact ⟨a, ⟨ls, mid, first⟩, mid, rest, second, follow⟩

/-- The result of the last parser that runs. -/
theorem GivesBefore.of_bind_pure (h : GivesBefore (p >>= fun a => pure (g a)) b n) :
    ∃ a, GivesBefore p a n ∧ b = g a := by
  obtain ⟨ls, rest, run, follow⟩ := h
  obtain ⟨a, mid, first, second⟩ := bind_eq_ok.1 run
  obtain ⟨rfl, rfl⟩ := pure_eq_ok.1 second
  exact ⟨a, ⟨ls, mid, first, follow⟩, rfl⟩

theorem GivesBefore.of_ite {c : Prop} [Decidable c] (h : GivesBefore (if c then p else q) a n) :
    GivesBefore p a n ∨ GivesBefore q a n := by
  split at h
  · exact .inl h
  · exact .inr h

theorem takeOperator_eq (operator? : Token → Option α) (ls : List Lexeme) :
    Parser.takeOperator? operator? ls = .ok (match operator? (ahead (ls.map Lexeme.token)) with
      | some op => (some op, ls.tail)
      | none => (none, ls)) := by
  refine (run_bind (peek_eq ls)).trans ?_
  split <;> simp_all <;> rfl

end

/-! ## Chains -/

/-- What follows binds with the rank of a level that associates to the left if it starts with an
operator of the level. -/
theorem tightness_eq_rank {l : Level} {operator? : Token → Option (Expr → Expr → Expr)}
    (associates : l.operator? = some operator?) (ts : List Token) :
    tightness ts = l.rank ↔ (operator? (ahead ts)).isSome = true := by
  constructor
  · intro h
    cases l <;> cases associates
    all_goals
      unfold tightness at h
      split at h <;> first | rfl | (split at h <;> cases h) | cases h
  · intro h
    rcases ts with _ | ⟨t, ts⟩
    · cases l <;> cases associates <;> cases h
    · cases l <;> cases associates
      all_goals
        cases t with
        | symbol s => cases s <;> first | rfl | cases h
        | keyword k => cases k <;> first | rfl | cases h
        | _ => cases h

/-- Operands with operators of a level between them: each one but the last stands in front of such an
operator. -/
inductive ChainForm (operand : Parser Expr) (operator? : Token → Option (Expr → Expr → Expr))
    (rank : Nat) : Expr → Nat → Prop
  | operand {e : Expr} {n : Nat} : GivesBefore operand e n → ChainForm operand operator? rank e n
  | combine {a b : Expr} {t : Token} {f : Expr → Expr → Expr} {n : Nat} :
    ChainForm operand operator? rank a rank → operator? t = some f → GivesBefore operand b n →
    ChainForm operand operator? rank (f a b) n

/-- The chain ends in front of no operator of the level, since it may have as many as there are
tokens. -/
theorem chainForm {operand : Parser Expr} {operator? : Token → Option (Expr → Expr → Expr)}
    {rank n : Nat} {e : Expr} (consumes : Consumes operand)
    (binds : ∀ ts, tightness ts = rank ↔ (operator? (ahead ts)).isSome = true)
    (ending : operator? .ending = none)
    (h : GivesBefore (Parser.chain operand (Parser.takeOperator? operator?)) e n) :
    ChainForm operand operator? rank e n ∧ n ≠ rank := by
  have grow {bound : Nat} {left : Expr} {mid rest : List Lexeme} (enough : mid.length ≤ bound)
      (soFar : ChainForm operand operator? rank left (tightness (mid.map Lexeme.token)))
      (run : Parser.chainFrom operand (Parser.takeOperator? operator?) bound left mid
        = .ok (e, rest)) :
      ChainForm operand operator? rank e (tightness (rest.map Lexeme.token)) ∧
        tightness (rest.map Lexeme.token) ≠ rank := by
    have stop (ls : List Lexeme) (none' : operator? (ahead (ls.map Lexeme.token)) = none) :
        tightness (ls.map Lexeme.token) ≠ rank := by
      rw [Ne, binds, none']
      exact Bool.false_ne_true
    induction bound generalizing left mid with
    | zero =>
      obtain rfl := List.eq_nil_of_length_eq_zero (Nat.eq_zero_of_le_zero enough)
      obtain ⟨rfl, rfl⟩ := pure_eq_ok.1 run
      exact ⟨soFar, stop [] ending⟩
    | succ bound ih =>
      obtain ⟨taken, after, operator, run⟩ := bind_eq_ok.1 run
      rw [takeOperator_eq] at operator
      cases found : operator? (ahead (mid.map Lexeme.token)) with
      | none =>
        rw [found] at operator
        cases operator
        obtain ⟨rfl, rfl⟩ := pure_eq_ok.1 run
        exact ⟨soFar, stop mid found⟩
      | some f =>
        rw [found] at operator
        cases operator
        obtain ⟨right, next, read, run⟩ := bind_eq_ok.1 run
        have shorter := consumes.length_le read
        have there : mid ≠ [] := by
          rintro rfl
          rw [List.map_nil, ahead, List.headD_nil, ending] at found
          cases found
        have count := List.length_pos_iff.2 there
        rw [List.length_tail] at shorter
        have rank_eq : tightness (mid.map Lexeme.token) = rank := by
          rw [binds, found]
          rfl
        rw [rank_eq] at soFar
        exact ih (by omega) (soFar.combine found (.of_run read)) run
  obtain ⟨ls, rest, run, rfl⟩ := h
  obtain ⟨left, mid, read, run⟩ := bind_eq_ok.1 run
  obtain ⟨bound, _, count, run⟩ := bind_eq_ok.1 run
  cases count
  exact grow (Nat.le_refl _) (.operand (.of_run read)) run

/-- Items with the operator `||` between them. -/
inductive ListForm (item : Parser Expr) : List Expr → Nat → Prop
  | last {e : Expr} {n : Nat} : GivesBefore item e n → ListForm item [e] n
  | cons {e : Expr} {es : List Expr} {n : Nat} : GivesBefore item e Level.concatenation.rank →
    ListForm item es n → ListForm item (e :: es) n

theorem listForm {item : Parser Expr} {n : Nat} {es : List Expr} (consumes : Consumes item)
    (h : GivesBefore (Parser.separatedBy .concat item) es n) :
    ListForm item es n ∧ n ≠ Level.concatenation.rank := by
  have stop {ts : List Token} (other : (ahead ts).isSymbol .concat = false) :
      tightness ts ≠ Level.concatenation.rank := by
    intro same
    have symbol : ahead ts = .symbol .concat := by
      unfold tightness at same
      split at same <;> first | rfl | cases same | (split at same <;> cases same)
    rw [symbol] at other
    exact absurd other (by decide)
  have grow {bound : Nat} {first : Expr} {es : List Expr} {mid rest : List Lexeme}
      (enough : mid.length ≤ bound)
      (given : GivesBefore item first (tightness (mid.map Lexeme.token)))
      (run : Parser.itemsAfter .concat item bound mid = .ok (es, rest)) :
      ListForm item (first :: es) (tightness (rest.map Lexeme.token)) ∧
        tightness (rest.map Lexeme.token) ≠ Level.concatenation.rank := by
    induction bound generalizing first es mid with
    | zero =>
      obtain rfl := List.eq_nil_of_length_eq_zero (Nat.eq_zero_of_le_zero enough)
      obtain ⟨rfl, rfl⟩ := pure_eq_ok.1 run
      exact ⟨.last given, stop rfl⟩
    | succ bound ih =>
      obtain ⟨taken, after, symbol, run⟩ := bind_eq_ok.1 run
      obtain ⟨rfl, rfl⟩ := takeIf_eq_ok.1 symbol
      cases found : (ahead (mid.map Lexeme.token)).isSymbol .concat with
      | false =>
        rw [found] at run
        obtain ⟨rfl, rfl⟩ := pure_eq_ok.1 run
        exact ⟨.last given, stop found⟩
      | true =>
        rw [found] at run
        obtain ⟨second, next, read, run⟩ := bind_eq_ok.1 run
        obtain ⟨more, last, tail, run⟩ := bind_eq_ok.1 run
        obtain ⟨rfl, rfl⟩ := pure_eq_ok.1 run
        have there : mid ≠ [] := by
          rintro rfl
          cases found
        have count := List.length_pos_iff.2 there
        have shorter := consumes.length_le read
        rw [if_pos rfl, List.length_tail] at shorter
        have rank_eq : tightness (mid.map Lexeme.token) = Level.concatenation.rank :=
          tightness_ahead (Token.isSymbol_iff.1 found) (by simp) fun _ => rfl
        rw [rank_eq] at given
        obtain ⟨list, stopped⟩ := ih (by omega) (.of_run read) tail
        exact ⟨.cons given list, stopped⟩
  obtain ⟨ls, rest, run, rfl⟩ := h
  obtain ⟨first, mid, read, run⟩ := bind_eq_ok.1 run
  obtain ⟨bound, _, count, run⟩ := bind_eq_ok.1 run
  cases count
  obtain ⟨more, last, tail, run⟩ := bind_eq_ok.1 run
  obtain ⟨rfl, rfl⟩ := pure_eq_ok.1 run
  exact grow (Nat.le_refl _) (.of_run read) tail

/-! ## Predicates -/

/-- The forms of a predicate: what stands in front of its first word binds looser. -/
inductive ComparisonForm (g : Grammar) : Expr → Nat → Prop
  | operand {e : Expr} {n : Nat} : GivesBefore g.concatenation e n → n ≠ Level.comparison.rank →
    ComparisonForm g e n
  | is (negated : Bool) {e : Expr} {l : Literal} (n : Nat) :
    GivesBefore g.concatenation e Level.comparison.rank → Gives isOperand l →
    ComparisonForm g (.is negated e (.literal l)) n
  | between (negated : Bool) {e low high : Expr} {n : Nat} :
    GivesBefore g.concatenation e Level.comparison.rank →
    GivesBefore g.concatenation low Level.conjunction.rank → GivesBefore g.concatenation high n →
    ComparisonForm g (.between negated e low high) n
  | like (negated : Bool) {e pattern : Expr} {n : Nat} :
    GivesBefore g.concatenation e Level.comparison.rank → GivesBefore g.concatenation pattern n →
    ComparisonForm g (.like negated e pattern) n
  | isIn (negated : Bool) {e values : Expr} (n : Nat) :
    GivesBefore g.concatenation e Level.comparison.rank → Gives g.valueSource values →
    ComparisonForm g (.isIn negated e values) n
  | compare (op : CompareOp) {a b : Expr} {n : Nat} :
    GivesBefore g.concatenation a Level.comparison.rank → GivesBefore g.concatenation b n →
    ComparisonForm g (.compare op a b) n
  | any (op : CompareOp) {e values : Expr} (n : Nat) :
    GivesBefore g.concatenation e Level.comparison.rank → Gives g.valueSource values →
    ComparisonForm g (.any op e values) n
  | all (op : CompareOp) {e values : Expr} (n : Nat) :
    GivesBefore g.concatenation e Level.comparison.rank → Gives g.valueSource values →
    ComparisonForm g (.all op e values) n

section

variable {g : Grammar} {e : Expr} {n : Nat} {ls rest : List Lexeme} {negated : Bool}

theorem peekSecond_eq (ls : List Lexeme) :
    Parser.peekSecond ls = .ok (ahead (ls.map Lexeme.token).tail, ls) := by
  rcases ls with _ | ⟨l, _ | _⟩ <;> rfl

/-- A `NOT` binds like a predicate if it stands in front of the word of one. -/
theorem tightness_not {ts : List Token} (first : ahead ts = .keyword .not) :
    tightness ts = Level.comparison.rank ↔ ahead ts.tail = .keyword .between ∨
      ahead ts.tail = .keyword .like ∨ ahead ts.tail = .keyword .in := by
  rcases ts with _ | ⟨t, _ | ⟨u, ts⟩⟩
  · cases first
  · obtain rfl : t = .keyword .not := first
    simp [tightness, ahead, Level.rank]
  · obtain rfl : t = .keyword .not := first
    cases u with
    | keyword k => cases k <;> simp [tightness, ahead, Level.rank]
    | _ => simp [tightness, ahead, Level.rank]

/-- A `NOT` is taken in front of the word of a predicate only. -/
theorem takeNegation_ok (run : takeNegation ls = .ok (negated, rest)) :
    tightness (ls.map Lexeme.token) = Level.comparison.rank ∧
        (ahead (rest.map Lexeme.token) = .keyword .between ∨
          ahead (rest.map Lexeme.token) = .keyword .like ∨
          ahead (rest.map Lexeme.token) = .keyword .in) ∨
      rest = ls ∧ negated = false ∧ (ahead (ls.map Lexeme.token) = .keyword .not →
        tightness (ls.map Lexeme.token) ≠ Level.comparison.rank) := by
  obtain ⟨t, mid, first, run⟩ := bind_eq_ok.1 run
  rw [peek_eq] at first
  obtain ⟨here, rfl⟩ := Prod.mk.inj (Except.ok.inj first)
  obtain ⟨u, mid, second, run⟩ := bind_eq_ok.1 run
  rw [peekSecond_eq] at second
  obtain ⟨next, rfl⟩ := Prod.mk.inj (Except.ok.inj second)
  split at run
  case h_4 other =>
    obtain ⟨rfl, rfl⟩ := pure_eq_ok.1 run
    refine .inr ⟨rfl, rfl, fun not => ?_⟩
    rw [Ne, tightness_not not]
    simp_all
  all_goals
    obtain ⟨_, after, advanced, run⟩ := bind_eq_ok.1 run
    cases advanced
    obtain ⟨rfl, rfl⟩ := pure_eq_ok.1 run
    exact .inl ⟨(tightness_not here).2 (by simp [next]), by simp [List.map_tail, next]⟩

/-- What binds like a predicate starts with the word or the operator of one. -/
theorem predicate_ahead {ts : List Token} (h : tightness ts = Level.comparison.rank) :
    ahead ts = .keyword .not ∨ ahead ts = .keyword .is ∨ ahead ts = .keyword .between ∨
      ahead ts = .keyword .like ∨ ahead ts = .keyword .in ∨
      (compareOp? (ahead ts)).isSome = true := by
  rcases ts with _ | ⟨t, ts⟩
  · cases h
  · cases t with
    | keyword k => cases k <;> first | (simp [ahead]; done) | cases h
    | symbol s => cases s <;> first | (simp [ahead, compareOp?]; done) | cases h
    | identifier name =>
      rw [tightness] at h
      split at h <;> cases h
    | _ => cases h

theorem tightness_compareOp {ts : List Token} {op : CompareOp}
    (h : compareOp? (ahead ts) = some op) : tightness ts = Level.comparison.rank := by
  rcases ts with _ | ⟨t, ts⟩
  · cases h
  · cases t with
    | symbol s => cases s <;> first | rfl | cases h
    | _ => cases h

theorem comparisonForm_from {op : CompareOp} {left : Expr}
    (given : GivesBefore g.concatenation left Level.comparison.rank)
    (run : g.comparisonFrom op left ls = .ok (e, rest)) :
    ComparisonForm g e (tightness (rest.map Lexeme.token)) := by
  obtain ⟨t, mid, -, run⟩ := bind_eq_ok.1 run
  split at run
  case h_4 =>
    obtain ⟨right, _, read, run⟩ := bind_eq_ok.1 run
    obtain ⟨rfl, rfl⟩ := pure_eq_ok.1 run
    exact .compare op given (.of_run read)
  all_goals
    obtain ⟨_, _, -, run⟩ := bind_eq_ok.1 run
    obtain ⟨values, _, read, run⟩ := bind_eq_ok.1 run
    obtain ⟨rfl, rfl⟩ := pure_eq_ok.1 run
    first
      | exact .any op _ given ⟨_, _, read⟩
      | exact .all op _ given ⟨_, _, read⟩

theorem comparisonForm (h : GivesBefore g.comparison e n) : ComparisonForm g e n := by
  obtain ⟨ls, rest, whole, rfl⟩ := h
  obtain ⟨left, mid, first, tail⟩ := bind_eq_ok.1 whole
  have given := GivesBefore.of_run first
  obtain ⟨isWord, _, taken, predicate⟩ := bind_eq_ok.1 tail
  obtain ⟨rfl, rfl⟩ := takeIf_eq_ok.1 taken
  cases word : (ahead (mid.map Lexeme.token)).isKeyword .is with
  | true =>
    rw [word] at predicate
    have rank : tightness (mid.map Lexeme.token) = Level.comparison.rank :=
      tightness_ahead (Token.isKeyword_iff.1 word) (by simp) fun _ => rfl
    obtain ⟨negated, _, _, run⟩ := bind_eq_ok.1 predicate
    obtain ⟨l, _, operand, run⟩ := bind_eq_ok.1 run
    obtain ⟨rfl, rfl⟩ := pure_eq_ok.1 run
    exact .is negated _ (rank ▸ given) ⟨_, _, operand⟩
  | false =>
    rw [word, if_neg Bool.false_ne_true, if_neg Bool.false_ne_true] at predicate
    obtain ⟨negated, behind, negation, predicate⟩ := bind_eq_ok.1 predicate
    obtain ⟨t, _, peeked, predicate⟩ := bind_eq_ok.1 predicate
    rw [peek_eq] at peeked
    obtain ⟨here, rfl⟩ := Prod.mk.inj (Except.ok.inj peeked)
    have negation := takeNegation_ok negation
    have rank {k : Keyword} (same : t = .keyword k) (binds : ∀ ts, tightness (.keyword k :: ts)
        = Level.comparison.rank) : tightness (mid.map Lexeme.token) = Level.comparison.rank := by
      obtain ⟨rank, -⟩ | ⟨rfl, -, -⟩ := negation
      · exact rank
      · exact tightness_ahead (here.trans same) (by simp) binds
    split at predicate
    · obtain ⟨_, _, -, run⟩ := bind_eq_ok.1 predicate
      obtain ⟨low, next, lower, run⟩ := bind_eq_ok.1 run
      obtain ⟨_, _, expected, run⟩ := bind_eq_ok.1 run
      obtain ⟨high, last, upper, run⟩ := bind_eq_ok.1 run
      obtain ⟨rfl, rfl⟩ := pure_eq_ok.1 run
      have conjunction : tightness (next.map Lexeme.token) = Level.conjunction.rank :=
        tightness_ahead (expectKeyword_ok expected).1 (by simp) fun _ => rfl
      exact .between negated (rank rfl (fun _ => rfl) ▸ given) (conjunction ▸ .of_run lower)
        (.of_run upper)
    · obtain ⟨_, _, -, run⟩ := bind_eq_ok.1 predicate
      obtain ⟨pattern, last, read, run⟩ := bind_eq_ok.1 run
      obtain ⟨rfl, rfl⟩ := pure_eq_ok.1 run
      exact .like negated (rank rfl (fun _ => rfl) ▸ given) (.of_run read)
    · obtain ⟨_, _, -, run⟩ := bind_eq_ok.1 predicate
      obtain ⟨values, last, read, run⟩ := bind_eq_ok.1 run
      obtain ⟨rfl, rfl⟩ := pure_eq_ok.1 run
      exact .isIn negated _ (rank rfl (fun _ => rfl) ▸ given) ⟨_, _, read⟩
    · rename_i notBetween notLike notIn
      obtain ⟨-, words⟩ | ⟨same, -, notPredicate⟩ := negation
      · rw [here] at words
        obtain between | like | in' := words
        · exact absurd between notBetween
        · exact absurd like notLike
        · exact absurd in' notIn
      obtain ⟨op?, after, operator, run⟩ := bind_eq_ok.1 predicate
      rw [takeOperator_eq] at operator
      rw [same] at here operator
      cases found : compareOp? (ahead (mid.map Lexeme.token)) with
      | none =>
        rw [found] at operator
        cases operator
        obtain ⟨rfl, rfl⟩ := pure_eq_ok.1 run
        refine .operand given fun same => ?_
        obtain not | is' | between | like | in' | operator := predicate_ahead same
        · exact notPredicate not same
        · rw [is'] at word
          cases word
        · exact notBetween (here.symm.trans between)
        · exact notLike (here.symm.trans like)
        · exact notIn (here.symm.trans in')
        · rw [found] at operator
          cases operator
      | some op =>
        rw [found] at operator
        cases operator
        exact comparisonForm_from (tightness_compareOp found ▸ given) run

end

/-! ## Operands -/

/-- The forms of an expression without operators. An assignment ends where its value ends. -/
inductive PrimaryForm (g : Grammar) : Expr → Nat → Prop
  | literal (l : Literal) (n : Nat) : PrimaryForm g (.literal l) n
  | column (table : Option String) (name : String) (n : Nat) : PrimaryForm g (.column table name) n
  | allColumns (n : Nat) : PrimaryForm g .allColumns n
  | tableColumns (table : String) (n : Nat) : PrimaryForm g (.tableColumns table) n
  | var (name : String) (n : Nat) : PrimaryForm g (.variable name) n
  | assign (name : String) {value : Expr} {n : Nat} : GivesBefore g.expression value n →
    PrimaryForm g (.assign name value) n
  | existsIn {q : Query} (n : Nat) : Gives g.query q → PrimaryForm g (.existsIn q) n
  | case {operand otherwise : Option Expr} {branches : List Branch} (n : Nat) :
    GivesCase g operand branches otherwise → PrimaryForm g (.case operand branches otherwise) n
  | subquery {q : Query} (n : Nat) : GivesQuery g q → PrimaryForm g (.subquery q) n
  | parens {e : Expr} (n : Nat) : Gives g.expression e → PrimaryForm g (.parens e) n
  | rowValue {es : List Expr} (n : Nat) : 2 ≤ es.length → (∀ e ∈ es, Gives g.expression e) →
    PrimaryForm g (.rowValue es) n
  | call (word : String) {e : Expr} (n : Nat) : CallForm g (Text.upper word) e → PrimaryForm g e n

/-- The forms of an operand, with the signs in front of it. -/
inductive UnaryForm (g : Grammar) : Expr → Nat → Prop
  | signed (sign : Sign) {e : Expr} {n : Nat} : UnaryForm g e n → UnaryForm g (.signed sign e) n
  | primary {e : Expr} {n : Nat} : PrimaryForm g e n → UnaryForm g e n

section

variable {g : Grammar} {e : Expr} {n : Nat}

theorem primaryForm (h : GivesBefore g.primary e n) : PrimaryForm g e n := by
  have column {name : String} (given : Gives (columnFrom name) e) : PrimaryForm g e n := by
    obtain rfl | ⟨column, rfl⟩ | rfl := given.of_columnFrom
    · exact .tableColumns name n
    · exact .column (some name) column n
    · exact .column none name n
  obtain ⟨t, -, h⟩ := h.of_bind
  split at h
  · obtain ⟨_, -, h⟩ := h.of_bind
    rw [h.gives.of_pure]
    exact .literal _ n
  · obtain ⟨_, -, h⟩ := h.of_bind
    rw [h.gives.of_pure]
    exact .allColumns n
  · obtain ⟨_, -, h⟩ := h.of_bind
    obtain ⟨_, -, h⟩ := h.of_bind
    rcases h.of_ite with h | h
    · obtain ⟨value, given, rfl⟩ := h.of_bind_pure
      exact .assign _ given
    · rw [h.gives.of_pure]
      exact .var _ n
  · obtain ⟨_, -, h⟩ := h.of_bind
    obtain ⟨q, given, rfl⟩ := h.of_bind_pure
    exact .existsIn n given.gives.of_inParens
  · obtain ⟨_, -, h⟩ := h.of_bind
    obtain ⟨operand, branches, otherwise, rfl, given⟩ := h.gives.of_caseFrom
    exact .case n given
  · obtain ⟨q, given, rfl⟩ | ⟨inner, given, rfl⟩ | ⟨es, several, given, rfl⟩ :=
      h.gives.of_parenthesized
    · exact .subquery n given
    · exact .parens n given
    · exact .rowValue n several given
  · obtain ⟨_, -, h⟩ := h.of_bind
    obtain ⟨_, -, h⟩ := h.of_bind
    rcases h.of_ite with h | h
    · exact .call _ n h.gives.of_callFrom
    · exact column h.gives
  · obtain ⟨_, -, h⟩ := h.of_bind
    exact column h.gives
  · exact absurd h.gives not_gives_unexpected

theorem unaryForm (h : GivesBefore g.unary e n) : UnaryForm g e n := by
  obtain ⟨ls, rest, run, rfl⟩ := h
  replace run := unaryRun run
  induction run with
  | integer i p q rest => exact .primary (.literal _ _)
  | float f p q rest => exact .primary (.literal _ _)
  | signed sign _ _ ih => exact .signed sign ih
  | primary run => exact .primary (primaryForm (.of_run run))

end

end TableQuery.Language
