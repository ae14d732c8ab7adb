import TableQuery.Proofs.Syntax.Depth
import TableQuery.Proofs.Syntax.Positions

/-!
# Parsing ends

Each routine takes a token or fails, and it does not get past the end of the tokens. So the
recursion goes down a level or on by a token with each call, and each loop goes on by a token with
each round.
-/

namespace TableQuery.Language

open Language.Grammar

/-! ## Parsers that take a token -/

/-- The parser takes a token where a certain one comes next. -/
def ShortensAt {α : Type} (t : Token) (p : Parser α) : Prop :=
  ∀ ls a rest, ahead (ls.map Lexeme.token) = t → p ls = .ok (a, rest) → rest.length < ls.length

section

variable {α β : Type} {p : Parser α} {q : Parser β} {t : Token}

theorem Shortens.at (h : Shortens p) : ShortensAt t p :=
  fun ls a rest _ run => h ls a rest run

theorem shortens_unexpected (expected : String) : Shortens (Parser.unexpected expected : Parser α) :=
  fun _ _ _ run => absurd run unexpected_ne_ok

theorem ShortensAt.advance {f : Unit → Parser β} (more : t ≠ .ending) (h : Consumes (f ())) :
    ShortensAt t (Parser.advance >>= f) := by
  intro ls b rest next run
  have behind : f () ls.tail = .ok (b, rest) := run
  refine Nat.lt_of_le_of_lt (h.length_le behind) ?_
  cases ls with
  | nil => exact absurd next.symm more
  | cons l ls => exact Nat.lt_succ_self _

theorem shortens_peek {f : Token → Parser β} (h : ∀ t, ShortensAt t (f t)) :
    Shortens (Parser.peek >>= f) := by
  intro ls b rest run
  rw [run_bind (peek_eq ls)] at run
  exact h _ ls b rest rfl run

theorem StartsBy.shortens (h : StartsBy p q) (h' : Shortens p) : Shortens q := by
  obtain ⟨f, rfl, after⟩ := h
  exact h'.bind after

theorem Consumes.shortens_inParens (h : Consumes p) : Shortens (Parser.inParens p) :=
  (shortens_expectSymbol _).bind fun _ => h.bind fun _ => (consumes_expectSymbol _).bind fun _ =>
    .pure _

theorem Shortens.separatedBy {separator : Symbol} (h : Shortens p) (h' : Consumes p) :
    Shortens (Parser.separatedBy separator p) :=
  h.bind fun _ => consumes_remaining.bind fun n => (h'.itemsAfter separator n).bind fun _ => .pure _

theorem Shortens.chain {operator? : Parser (Option (α → α → α))} (h : Shortens p) (h' : Consumes p)
    (operates : Consumes operator?) : Shortens (Parser.chain p operator?) :=
  h.bind fun _ => consumes_remaining.bind fun n => h'.chainFrom operates n _

theorem shortens_expectName (what : String) : Shortens (Parser.expectName what) := by
  intro ls name rest run
  obtain ⟨name?, mid, first, second⟩ := bind_eq_ok.1 run
  cases name? with
  | none => exact absurd second unexpected_ne_ok
  | some name' =>
    cases second
    rw [Parser.takeName?, run_bind (peek_eq ls)] at first
    cases found : (ahead (ls.map Lexeme.token)).name? with
    | none =>
      rw [found] at first
      cases first
    | some _ =>
      rw [found] at first
      cases first
      exact @length_of_ahead (fun t => t.name?.isSome) ls rfl (by rw [found]; rfl)

end

/-! ## Routines -/

section

variable {g : Grammar}

theorem Grammar.Consuming.shortens_primary (h : g.Consuming) : Shortens g.primary := by
  refine shortens_peek fun t => ?_
  split
  · exact .advance (by rintro rfl; contradiction) (.pure _)
  · exact .advance (by rintro ⟨⟩) (.pure _)
  · exact .advance (by rintro ⟨⟩) ((consumes_takeIf _).bind fun _ =>
      .ite (h.expression.bind fun _ => .pure _) (.pure _))
  · exact .advance (by rintro ⟨⟩) (h.query.inParens.bind fun _ => .pure _)
  · exact .advance (by rintro ⟨⟩) h.caseFrom
  · refine (Consumes.shortens_inParens (consumes_atQuery.bind fun _ =>
      .ite (h.query.bind fun _ => .pure _) (h.expressions.bind fun es => ?_))).at
    split <;> exact .pure _
  · exact .advance (by rintro ⟨⟩) ((consumes_atSymbol _).bind fun _ =>
      .ite (h.callFrom _) (consumes_columnFrom _))
  · exact .advance (by rintro ⟨⟩) (consumes_columnFrom _)
  · exact (shortens_unexpected _).at

theorem Grammar.Consuming.shortens_sourcePrimary (h : g.Consuming) : Shortens g.sourcePrimary := by
  have named : Shortens (do
      let name ← tableName
      return Source.named name (← Parser.takeAlias? "table alias")) := by
    have name : Shortens tableName :=
      ((shortens_expectName _).separatedBy (consumes_expectName _)).bind fun _ => .pure _
    exact name.bind fun _ => (consumes_takeAlias _).bind fun _ => .pure _
  refine shortens_peek fun t => ?_
  split
  · exact .advance (by rintro ⟨⟩) ((consumes_takeAlias _).bind fun _ => .pure _)
  · exact .advance (by rintro ⟨⟩) ((consumes_takeAlias _).bind fun _ => .pure _)
  · exact .advance (by rintro ⟨⟩) (h.valueRows.bind fun _ => consumes_valuesSource _)
  · exact .advance (by rintro ⟨⟩) h.parenthesizedSource
  · exact named.at
  · exact named.at
  · exact (shortens_unexpected _).at

theorem shortens_unary (h : Shortens g.primary) : Shortens g.unary := by
  intro ls e rest run
  replace run := unaryRun run
  induction run with
  | integer | float =>
    simp only [List.length_cons]
    omega
  | signed _ _ _ ih => exact Nat.lt_succ_of_lt ih
  | primary run => exact h _ _ _ run

theorem shortens_negation (h : Shortens g.comparison) : Shortens g.negation := by
  intro ls e rest run
  replace run := negationRun run
  induction run with
  | not _ _ ih => exact Nat.lt_succ_of_lt ih
  | comparison run => exact h _ _ _ run

theorem Grammar.Consuming.shortens (h : g.Consuming) (k : Routine) :
    Shortens (g.deeper.routinesBelow g k) := by
  induction k using Routine.descend with
  | step k ih =>
    cases k with
    | expression => exact ih .disjunction rfl
    | disjunction => exact (ih .conjunction rfl).chain h.conjunction consumes_takeOperator
    | conjunction => exact (ih .negation rfl).chain h.negation consumes_takeOperator
    | negation => exact shortens_negation (ih _ rfl)
    | comparison => exact h.comparison_startsBy.shortens (ih .concatenation rfl)
    | concatenation =>
      refine (Shortens.separatedBy (ih .sum rfl) h.sum).bind fun es => ?_
      split <;> exact .pure _
    | sum => exact (ih .term rfl).chain h.term consumes_takeOperator
    | term => exact (ih .unary rfl).chain h.unary consumes_takeOperator
    | unary => exact shortens_unary (ih _ rfl)
    | primary => exact h.shortens_primary
    | query =>
      obtain ⟨f, eq, after⟩ := h.fullQuery_startsBy
      show Shortens g.fullQuery
      rw [eq]
      exact h.inlineDefs.bind_shortens fun tables => (after tables).shortens (ih .body rfl)
    | body =>
      have intersection := h.bodyPrimary.chain (consumes_takeSetOp intersectOp?)
      exact (ih .intersection rfl).chain intersection (consumes_takeSetOp _)
    | intersection => exact (ih .bodyPrimary rfl).chain h.bodyPrimary (consumes_takeSetOp _)
    | bodyPrimary =>
      exact (consumes_atSymbol _).bind_shortens fun _ =>
        .ite (h.query.shortens_inParens.bind fun _ => .pure _) (ih _ rfl)
    | selectBody => exact h.selectBody_startsBy.shortens (shortens_expectKeyword _)
    | source =>
      exact Shortens.bind (ih .sourcePrimary rfl) fun _ => consumes_remaining.bind fun n =>
        h.joinsFrom n _
    | sourcePrimary => exact h.shortens_sourcePrimary

theorem Grammar.Consuming.routines (h : g.Consuming) (k : Routine) : Consumes (g.routines k) := by
  cases k with
  | expression => exact h.expression
  | disjunction => exact h.disjunction
  | conjunction => exact h.conjunction
  | negation => exact h.negation
  | comparison => exact h.comparison
  | concatenation => exact h.concatenation
  | sum => exact h.sum
  | term => exact h.term
  | unary => exact h.unary
  | primary => exact h.primary
  | query => exact h.query
  | body => exact h.body
  | intersection => exact h.bodyPrimary.chain (consumes_takeSetOp _)
  | bodyPrimary => exact h.bodyPrimary
  | selectBody => exact h.selectBody
  | source => exact h.source
  | sourcePrimary => exact h.sourcePrimary

theorem Grammar.whole_consuming : whole.Consuming := by
  have each {α : Type} (entry : Grammar → Parser α) (h : ∀ depth, Consumes (entry (ofDepth depth))) :
      Consumes fun ls => entry (ofDepth (ls.length + 1)) ls :=
    ⟨(h _).leaves, (h _).fails⟩
  exact ⟨each Grammar.expression fun depth => (consuming_ofDepth depth).expression,
    each Grammar.query fun depth => (consuming_ofDepth depth).query,
    each Grammar.source fun depth => (consuming_ofDepth depth).source⟩

theorem Grammar.whole_later {k : Routine} {ls rest : List Lexeme} {a : k.Result}
    (run : whole.routines k ls = .ok (a, rest)) : Later ls rest := by
  have shortens := whole_consuming.shortens k
  rw [whole_deeper] at shortens
  obtain rfl | later := (whole_reaches run).eq_or_later
  · exact absurd (shortens _ _ _ run) (Nat.lt_irrefl _)
  · exact later

end

/-! ## Positions -/

/-- From the position on, the parser gets on by a token or more but leaves the last token, or it
fails at a place that is not past the end. -/
structure AdvancesFrom {α : Type} (tokens : List Lexeme) (start : Nat) (p : Parser α) : Prop where
  leaves : ∀ a rest, p (tokens.drop start) = .ok (a, rest) →
    ∃ stop, start < stop ∧ stop < tokens.length ∧ rest = tokens.drop stop
  fails : ∀ e, p (tokens.drop start) = .error e →
    ∃ stop, start ≤ stop ∧ stop ≤ max start tokens.length ∧ Unexpected (tokens.drop stop) e

/-- The end of the text is not passed. -/
theorem Reaches.ends {ls rest : List Lexeme} {last : Lexeme} (h : Reaches ls rest)
    (ending : last.token = .ending) (ends : ∃ body, ls = body ++ [last]) :
    ∃ body, rest = body ++ [last] := by
  induction h with
  | here => exact ends
  | take more _ ih =>
    obtain ⟨body, eq⟩ := ends
    cases body with
    | nil =>
      obtain ⟨rfl, -⟩ := List.cons.inj eq
      exact absurd ending more
    | cons l body => exact ih ⟨body, (List.cons.inj eq).2⟩

/-- What is left of the tokens from a position on stands behind another position. -/
theorem eq_drop_of_suffix {tokens rest : List Lexeme} {start : Nat}
    (suffix : rest <:+ tokens.drop start) :
    rest = tokens.drop (max start (tokens.length - rest.length)) := by
  have whole := List.suffix_iff_eq_drop.1 (suffix.trans (List.drop_suffix start tokens))
  have shorter := suffix.length_le
  rw [List.length_drop] at shorter
  by_cases within : start ≤ tokens.length
  · rw [Nat.max_eq_right (by omega)]
    exact whole
  · have nothing : rest = [] := List.eq_nil_of_length_eq_zero (by omega)
    rw [List.drop_eq_nil_of_le (by omega), nothing]

theorem Grammar.whole_advances (body : List Lexeme) (position start : Nat) (k : Routine) :
    AdvancesFrom (body ++ [⟨.ending, position⟩]) start (whole.routines k) where
  leaves a rest run := by
    have later := whole_later run
    have shorter := later.length_lt
    rw [List.length_drop, List.length_append, List.length_singleton] at shorter
    have split : (body ++ [(⟨.ending, position⟩ : Lexeme)]).drop start
        = body.drop start ++ [⟨.ending, position⟩] :=
      List.drop_append_of_le_length (by omega)
    obtain ⟨body', ends⟩ := later.reaches.ends rfl ⟨_, split⟩
    have size : 0 < rest.length := by
      rw [ends, List.length_append]
      exact Nat.succ_pos _
    refine ⟨_, ?_, ?_, eq_drop_of_suffix later.reaches.suffix⟩
    · rw [List.length_append, List.length_singleton]
      omega
    · rw [List.length_append, List.length_singleton]
      omega
  fails e run := by
    obtain ⟨rest, suffix, unexpected⟩ := (whole_consuming.routines k).fails run
    have here := eq_drop_of_suffix suffix
    refine ⟨_, Nat.le_max_left _ _, ?_, here ▸ unexpected⟩
    omega

/-! ## Loops -/

/-- No loop of the grammar is cut off by the bound that it has. -/
structure Grammar.LoopsEnd (g : Grammar) : Prop where
  lists : ∀ {α : Type} (separator : Symbol) (item : Parser α), Consumes item →
    Settles (Parser.itemsAfter separator item)
  chains : ∀ {α : Type} (operand : Parser α) (operator? : Parser (Option (α → α → α))) (left : α),
    Consumes operand → SteadyOperator operator? →
    Settles fun bound => Parser.chainFrom operand operator? bound left
  branches : Settles g.branches
  joins : ∀ left, Settles fun bound => g.joinsFrom bound left
  semicolons : Settles skipSemicolons
  queries : Settles g.statements

section

variable {g g' : Grammar}

theorem settles_skipSemicolons : Settles skipSemicolons := by
  refine Settles.of_step (f := fun k (_ : Unit) => skipSemicolons k) (fun k _ => by cases k <;> rfl)
    (fun k k' _ ls ih => ?_) ()
  refine bind_congr_run fun took rest run => ?_
  obtain ⟨there, rfl⟩ := takeIf_eq_ok.1 run
  cases took with
  | false => rfl
  | true => exact ih () _ (length_of_ahead rfl there.symm)

theorem Grammar.Consuming.settles_statements (h : g.Consuming) : Settles g.statements := by
  refine Settles.of_step (f := fun k (_ : Unit) => g.statements k) (fun k _ => by cases k <;> rfl)
    (fun k k' _ ls ih => ?_) ()
  refine bind_congr_run fun n rest run => bind_congr_run fun _ rest' run' =>
    bind_congr_run fun t rest'' run'' => ?_
  have counted := consumes_remaining.length_le run
  have skipped := (consumes_skipSemicolons n).length_le run'
  have seen := consumes_peek.length_le run''
  split
  · rfl
  · refine bind_congr_run fun q mid run => bind_congr_run fun t mid' run' => ?_
    have parsed := h.query.length_le run
    have seen := consumes_peek.length_le run'
    split
    · rfl
    · refine bind_congr_run fun _ last run => bind_congr_left (ih () last ?_)
      have taken := shortens_expectSymbol _ _ _ _ run
      omega

theorem Grammar.Consuming.loopsEnd (h : g.Consuming) : g.LoopsEnd where
  lists separator _ item := settles_itemsAfter separator item
  chains _ _ left operand operates := settles_chainFrom operand operates left
  branches := settles_branches h.expression
  joins := settles_joinsFrom h
  semicolons := settles_skipSemicolons
  queries := h.settles_statements

/-! ## The loop over the queries of a text -/

/-- A round of the loop over semicolons; `again` does the rounds behind it. -/
def skipRound (again : Parser Unit) : Parser Unit := do
  if ← Parser.takeSymbol .semicolon then again

/-- A round of the loop over queries; `skip` takes semicolons and `again` does the rounds behind
it. -/
def Grammar.batchRound (g : Grammar) (skip : Parser Unit) (again : Parser (List Query)) :
    Parser (List Query) := do
  skip
  match ← Parser.peek with
  | .ending => return []
  | _ =>
    let q ← g.query
    match ← Parser.peek with
    | .ending => return [q]
    | _ =>
      Parser.expectSymbol .semicolon
      let qs ← again
      return q :: qs

/-- Takes all semicolons. -/
def skipAll : Parser Unit := do
  skipSemicolons (← Parser.remaining)

/-- The queries of a text. -/
def Grammar.batch (g : Grammar) : Parser (List Query) := do
  g.statements (← Parser.remaining)

variable {α : Type} {S : Places}

/-- A loop whose rounds take a token before they go on is the one solution of what a round says. -/
theorem round_eq_iff {loop : Nat → Parser α} {round : Parser α → Parser α} (settles : Settles loop)
    (next : ∀ bound, loop (bound + 1) = round (loop bound))
    (reaches : ∀ bound S, Alike S (loop bound) (loop bound))
    (guarded : ∀ S p p', Alike S.later p p' → Alike S (round p) (round p')) (p : Parser α) :
    round p = p ↔ p = Parser.remaining >>= loop := by
  have settled (ls : List Lexeme) {bound : Nat} (enough : ls.length ≤ bound) :
      (Parser.remaining >>= loop) ls = loop bound ls :=
    settles _ _ ls (Nat.le_refl _) enough
  have solves : round (Parser.remaining >>= loop) = Parser.remaining >>= loop := by
    funext ls
    have behind : Alike (Places.startingAt ls).later (loop ls.length) (Parser.remaining >>= loop) :=
      ⟨fun rest there => (settled rest (Places.later_startingAt there).length_lt.le).symm,
        (reaches _ _).reaches⟩
    rw [settled ls (Nat.le_succ _), next]
    exact ((guarded _ _ _ behind).same ls (.here ls)).symm
  constructor
  · intro again
    have alike (n : Nat) : Alike (.fewer n) p (Parser.remaining >>= loop) := by
      induction n with
      | zero => exact alike_nowhere
      | succ n ih =>
        have step := guarded (.fewer (n + 1)) _ _ (ih.mono (Places.later_fewer n))
        rwa [again, solves] at step
    exact funext fun ls => (alike _).same ls (Nat.lt_succ_self (tokensLeft ls))
  · rintro rfl
    exact solves

theorem alike_skipRound {again again' : Parser Unit} (h : Alike S.later again again') :
    Alike S (skipRound again) (skipRound again') :=
  .bind_takeIf rfl h (.pure _)

theorem alike_skipSemicolons (bound : Nat) :
    Alike S (skipSemicolons bound) (skipSemicolons bound) := by
  induction bound generalizing S with
  | zero => exact .pure _
  | succ bound ih => exact alike_skipRound ih

theorem Grammar.Like.batchRound {again again' : Parser (List Query)} (h : g.Like S g')
    (h' : Alike S.later again again') :
    Alike S (g.batchRound skipAll again) (g'.batchRound skipAll again') := by
  refine Alike.bind (.bind_remaining alike_skipSemicolons) fun _ => .bind_peek fun t => ?_
  split
  · exact (Alike.pure _).at
  · refine Alike.at (h.query.bind fun q => .bind_peek fun t => ?_)
    split
    · exact (Alike.pure _).at
    · exact Alike.at (.bind_expectSymbol (h'.bind fun _ => .pure _))

theorem Grammar.Like.statements (h : g.Like S g') (bound : Nat) :
    Alike S (g.statements bound) (g'.statements bound) := by
  induction bound generalizing S with
  | zero => exact .pure _
  | succ bound ih => exact h.batchRound (ih h.later)

theorem Grammar.whole_like_self (S : Places) : whole.Like S whole :=
  ⟨⟨fun _ _ => rfl, fun _ _ _ _ run => @whole_reaches .expression _ _ _ run⟩,
    ⟨fun _ _ => rfl, fun _ _ _ _ run => @whole_reaches .query _ _ _ run⟩,
    ⟨fun _ _ => rfl, fun _ _ _ _ run => @whole_reaches .source _ _ _ run⟩⟩

theorem skipRound_eq_iff (skip : Parser Unit) : skipRound skip = skip ↔ skip = skipAll :=
  round_eq_iff settles_skipSemicolons (fun _ => rfl) (fun bound _ => alike_skipSemicolons bound)
    (fun _ _ _ => alike_skipRound) skip

theorem Grammar.batchRound_eq_iff (again : Parser (List Query)) :
    whole.batchRound skipAll again = again ↔ again = whole.batch :=
  round_eq_iff whole_consuming.settles_statements (fun _ => rfl)
    (fun bound S => (whole_like_self S).statements bound)
    (fun S _ _ => (whole_like_self S).batchRound) again

/-! ## Texts -/

theorem tokensLeft_append_le (body : List Lexeme) (position : Nat) :
    tokensLeft (body ++ [⟨.ending, position⟩]) ≤ body.length := by
  induction body with
  | nil => exact Nat.le_refl 0
  | cons l body ih =>
    rw [List.cons_append, tokensLeft]
    split
    · exact Nat.zero_le _
    · exact Nat.succ_le_succ ih

theorem tokensLeft_lexemes {text : String} {ls : List Lexeme} (h : lexemes text = .ok ls) :
    tokensLeft ls < ls.length := by
  obtain ⟨body, rfl, -⟩ := (lexemes_faithful h).ends
  rw [List.length_append, List.length_singleton]
  exact Nat.lt_succ_of_le (tokensLeft_append_le body _)

theorem parseWith_eq {parser : Grammar → Parser α} {limit : Parser α} (text : String)
    (h : ∀ n ls, tokensLeft ls < n → parser (ofDepth n) ls = limit ls) :
    parseWith parser text = parseWith (fun _ => limit) text := by
  unfold parseWith
  cases lexed : lexemes text with
  | error e => rfl
  | ok ls =>
    show Except.map Prod.fst (parser (ofDepth ls.length) ls) = Except.map Prod.fst (limit ls)
    rw [h _ ls (tokensLeft_lexemes lexed)]

theorem parseExpr_eq_whole (text : String) :
    parseExpr text = parseWith (fun _ => Grammar.whole.expression) text :=
  parseWith_eq text fun _ _ few => ofDepth_routines .expression few

theorem parseQuery_eq_whole (text : String) :
    parseQuery text = parseWith (fun _ => Grammar.whole.statement) text :=
  parseWith_eq text fun _ _ few => bind_congr_left (ofDepth_routines .query few)

theorem parseQueries_eq_whole (text : String) :
    parseQueries text = parseWith (fun _ => Grammar.whole.batch) text := by
  refine parseWith_eq text fun n ls few => ?_
  have like := whole_like empty n
  rw [← ofDepth_eq] at like
  exact ((like.statements ls.length).same ls few).symm

/-- From any position among tokens that end, each routine gets on by a token or more but not past
the end, or it fails without getting past the end. A routine that calls another one before a token
is taken goes down a level, and there are ten levels. What a routine does hangs on these calls and
on those behind a token only, so calls are nested ten levels deep for each token at most, whatever
stands for deeper ones, and the recursion has one solution, which a grammar of more depth than there
are tokens left gives. No loop is cut off by its bound. The texts of expressions, queries and lists
of queries are parsed by that solution, the last ones by a loop that has one solution, too. -/
theorem parsing_advances_and_ends :
    (∀ body position start k, AdvancesFrom (body ++ [⟨.ending, position⟩]) start (whole.routines k)) ∧
    (∀ k : Routine, k.level < 10 ∧ ∀ k' ∈ k.first?, k'.level < k.level) ∧
    (∀ (S : Places) (r r' : Routines) (k : Routine), (∀ k', Alike S.later (r k') (r' k')) →
      (∀ k' ∈ k.first?, Alike S (r k') (r' k')) → Alike S (r.calls k) (r'.calls k)) ∧
    (∀ (r : Routines) k ls n, 10 * tokensLeft ls + k.level < n →
      Routines.calls^[n] r k ls = whole.routines k ls) ∧
    (∀ r : Routines, r.calls = r ↔ r = whole.routines) ∧
    (∀ depth k ls, tokensLeft ls < depth → (ofDepth depth).routines k ls = whole.routines k ls) ∧
    whole.LoopsEnd ∧
    (∀ skip, skipRound skip = skip ↔ skip = skipAll) ∧
    (∀ again, whole.batchRound skipAll again = again ↔ again = whole.batch) ∧
    ∀ text, parseExpr text = parseWith (fun _ => whole.expression) text ∧
      parseQuery text = parseWith (fun _ => whole.statement) text ∧
      parseQueries text = parseWith (fun _ => whole.batch) text := by
  refine ⟨whole_advances, fun k => ⟨Nat.lt_succ_of_le k.level_le, fun k' first => ?_⟩,
    fun _ _ _ _ => Routines.alike_calls, fun r _ _ _ => r.calls_iterate, Routines.calls_eq_iff,
    fun _ k _ => ofDepth_routines k, whole_consuming.loopsEnd, skipRound_eq_iff, batchRound_eq_iff,
    fun text => ?_⟩
  · rw [Routine.level_of_first first]
    exact Nat.lt_succ_self _
  · exact ⟨parseExpr_eq_whole text, parseQuery_eq_whole text, parseQueries_eq_whole text⟩

/-- A number in front of the end of the text is taken, and no query starts at the end. -/
theorem parsing_advances_and_ends_number :
    (∃ e rest, whole.routines .expression [⟨.integer 1, 0⟩, ⟨.ending, 1⟩] = .ok (e, rest) ∧
      ∃ stop, 0 < stop ∧ stop < 2 ∧ rest = [⟨.integer 1, 0⟩, ⟨.ending, 1⟩].drop stop) ∧
    ∃ e, whole.routines .query [⟨.ending, 1⟩] = .error e ∧
      ∃ stop, 1 ≤ stop ∧ stop ≤ 2 ∧
        Unexpected ([⟨.integer 1, 0⟩, ⟨.ending, 1⟩].drop stop) e := by
  have taken : whole.routines .expression [⟨.integer 1, 0⟩, ⟨.ending, 1⟩]
      = .ok (.literal (.integer 1), [⟨.ending, 1⟩]) := rfl
  have failed : ∃ e, whole.routines .query [⟨.ending, 1⟩] = .error e := ⟨_, rfl⟩
  obtain ⟨e, failed⟩ := failed
  exact ⟨⟨_, _, taken,
      (parsing_advances_and_ends.1 [⟨.integer 1, 0⟩] 1 0 .expression).leaves _ _ taken⟩,
    e, failed, (parsing_advances_and_ends.1 [⟨.integer 1, 0⟩] 1 1 .query).fails e failed⟩

end

end TableQuery.Language
