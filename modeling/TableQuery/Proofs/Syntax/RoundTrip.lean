import TableQuery.Proofs.Syntax.Queries
import TableQuery.Proofs.Syntax.Restoring
import TableQuery.Proofs.Syntax.Spelling

/-!
# Queries are read back

The canonical text of a query that was parsed is parsed as the same query, if what canonical text
writes without quotes and parentheses needs none. Each depth of the grammar is taken from the one
below: sources and the bodies of queries first, then whole queries, then the texts.
-/

namespace TableQuery.Language

open Language.Grammar

/-! ## Sources -/

theorem Token.not_continuing {t : Token} (h : t.joins = true ∨ t.closes = true) :
    t.continuesTable = false := by
  cases t with
  | keyword k => cases k <;> first | rfl | (rcases h with h | h <;> cases h)
  | symbol s => cases s <;> first | rfl | (rcases h with h | h <;> cases h)
  | ending => rfl
  | _ => rcases h with h | h <;> cases h

section

variable {g : Grammar} {d n : Nat} {e : Expr} {rest : List Token} {s : Source}

/-- A source that is read as an operand. -/
theorem Grammar.ReadsJoined.of_operand (h : ∀ rest, (ahead rest).continuesTable = false →
    Takes g.sourcePrimary s.tokens s rest) : g.ReadsJoined s :=
  ⟨fun _ => h, fun rest follow => (h rest (Token.not_continuing follow)).leadsSource⟩

theorem Grammar.Restores.rows (restores : g.Restores) {rows : List (List Expr)}
    (given : ∀ row ∈ rows, row ≠ [] ∧ ∀ e ∈ row, Gives g.expression e) (printable : rowsPrintable rows)
    (short : ∀ ts ∈ rowTokens rows, ts.length ≤ d) :
    (Grammar.ofDepth d).ReadsRows (rowTokens rows) rows := by
  induction rows with
  | nil => exact .nil
  | cons row rows ih =>
    rw [List.forall_mem_cons] at given
    rw [rowTokens, List.forall_mem_cons, parenTokens, List.length_cons, List.length_append] at short
    have list : List.Forall₂ (Grammar.ofDepth d).Reads (exprTokens row) row := readsNested_list
      (fun e member => restores.nested (given.1.2 e member) (printable_of_mem printable.1 e member))
      (by omega)
    exact .cons ⟨given.1.1, _, rfl, list⟩ (ih given.2 printable.2 short.2)

theorem SourceForm.reads (restores : g.Restores) (h : SourceForm g s) (printable : s.Printable)
    (deep : s.tokens.length ≤ d) : (Grammar.ofDepth d).ReadsJoined s := by
  cases h with
  | named name aliasName => exact .of_operand fun _ stop => takes_named name stop
  | dual aliasName => exact .of_operand fun _ stop => takes_dual stop
  | stdin aliasName => exact .of_operand fun _ stop => takes_stdin stop
  | @values rows aliasName columns nonempty given named =>
    simp only [Source.tokens, parenTokens, List.length_cons, List.length_append] at deep
    have list : (Grammar.ofDepth d).ReadsRows (rowTokens rows) rows :=
      restores.rows given printable.1 fun ts member => by
        have inner : ts.length ≤ (commaTokens (rowTokens rows)).length := length_le_separated member
        omega
    exact .of_operand fun _ stop => takes_values list nonempty named stop
  | subquery given named =>
    simp only [Source.tokens, parenTokens, List.length_cons, List.length_append] at deep
    have inner := restores.query d _ given printable.1 (by omega)
    exact .of_operand fun _ stop => takes_subquerySource (ofDepth_starts d) inner named stop
  | nested given => exact restores.source d s given printable deep

theorem Joined.reads (restores : g.Restores) (h : Joined g s) (printable : s.Printable)
    (deep : s.tokens.length ≤ d) : (Grammar.ofDepth d).ReadsJoined s := by
  induction h with
  | operand given => exact given.of_sourcePrimary.reads restores printable deep
  | @join left right kind m _ given matching ih =>
    refine ⟨nofun, fun rest follow => ?_⟩
    obtain ⟨leftPrintable, single, rightPrintable, matchPrintable⟩ := printable
    simp only [Source.tokens, List.length_cons, List.length_append] at deep
    have condition : (Grammar.ofDepth d).ReadsMatch m := by
      match m with
      | .on e =>
        rw [JoinMatch.tokens, List.length_cons] at deep
        exact restores.nested (matching.condition e rfl) matchPrintable d (by omega)
      | .always | .natural | .using _ => trivial
    have next : (ahead (m.tokens ++ rest)).continuesTable = false := by
      match m with
      | .always | .natural => exact Token.not_continuing follow
      | .on e | .using names => rfl
    have right' : (Grammar.ofDepth d).ReadsJoined right :=
      given.of_sourcePrimary.reads restores rightPrintable (by omega)
    have operand := right'.operand single _ next
    have first := (ih leftPrintable (by omega)).first (m.leadTokens
      ++ .keyword kind.keyword :: (.keyword .join :: (right.tokens ++ m.tokens) ++ rest)) (.inl ?_)
    · exact leadsSource_join first operand matching.suits condition follow
    · cases m <;> cases kind <;> rfl

/-! ## Bodies -/

theorem Grammar.ReadsJoined.source (h : (Grammar.ofDepth d).ReadsJoined s) :
    (Grammar.ofDepth (d + 1)).ReadsSource s :=
  fun rest closes =>
    takes_of_leadsSource (h.first rest (.inr closes)) (Token.not_joining_of_closes closes).1

theorem Grammar.Restores.fields (restores : g.Restores) {fields : List Field}
    (given : ∀ e aliasName, .mk e aliasName ∈ fields → Gives g.expression e)
    (printable : fieldsPrintable fields) (short : ∀ ts ∈ fieldTokens fields, ts.length < d) :
    (Grammar.ofDepth d).ReadsFields fields := by
  induction fields with
  | nil => trivial
  | cons field fields ih =>
    obtain ⟨e, aliasName⟩ := field
    rw [fieldTokens, List.forall_mem_cons, List.length_append] at short
    refine ⟨restores.nested (given e aliasName List.mem_cons_self) printable.1 d (by omega), ?_⟩
    exact ih (fun e a member => given e a (List.mem_cons_of_mem _ member)) printable.2.2 short.2

theorem Grammar.Restores.sources (restores : g.Restores) {sources : List Source}
    (given : ∀ s ∈ sources, Gives g.source s) (printable : sourcesPrintable sources)
    (short : ∀ ts ∈ sourceTokens sources, ts.length ≤ d) :
    ∀ s ∈ sources, (Grammar.ofDepth (d + 1)).ReadsSource s := by
  induction sources with
  | nil => simp
  | cons s sources ih =>
    rw [sourceTokens, List.forall_mem_cons] at short
    rw [List.forall_mem_cons] at given ⊢
    exact ⟨(restores.source d s given.1 printable.1 short.1).source, ih given.2 printable.2 short.2⟩

theorem length_from {sources : List Source} {ts : List Token} (h : ts ∈ sourceTokens sources) :
    ts.length < (fromTokens sources).length := by
  have inner : ts.length ≤ (commaTokens (sourceTokens sources)).length := length_le_separated h
  cases sources with
  | nil => cases h
  | cons s sources => exact Nat.lt_succ_of_le inner

theorem length_group (groups : List Expr) :
    (commaTokens (exprTokens groups)).length ≤ (groupTokens groups).length := by
  cases groups with
  | nil => exact Nat.le_refl _
  | cons e groups => exact Nat.le_trans (Nat.le_succ _) (Nat.le_succ _)

theorem BodyForm.takes (restores : g.Restores) {body : Body} (h : BodyForm g body)
    (printable : body.Printable) (deep : body.tokens.length ≤ d) (stop : 4 < (ahead rest).clauseRank) :
    Takes (Grammar.ofDepth d).bodyPrimary body.tokens body rest := by
  cases h with
  | @select distinct fields sources condition having groups nonempty fieldsGiven sourcesGiven
      conditionGiven groupsGiven havingGiven =>
    obtain ⟨fieldsPrintable, sourcesPrintable, conditionPrintable, groupsPrintable, havingPrintable⟩ :=
      printable
    have tokens : (Body.select distinct fields sources condition groups having).tokens
        = .keyword .select :: (tokenIf distinct (.keyword .distinct) ++ (commaTokens (fieldTokens fields)
          ++ (fromTokens sources ++ (clauseTokens [.keyword .where] condition
          ++ (groupTokens groups ++ clauseTokens [.keyword .having] having))))) := rfl
    simp only [tokens, List.length_cons, List.length_append] at deep
    have readsFields : (Grammar.ofDepth d).ReadsFields fields :=
      restores.fields fieldsGiven fieldsPrintable fun ts member => by
        have inner : ts.length ≤ (commaTokens (fieldTokens fields)).length := length_le_separated member
        omega
    have readsSources : ∀ s ∈ sources, (Grammar.ofDepth d).ReadsSource s := by
      obtain ⟨depth, rfl⟩ : ∃ depth, d = depth + 1 := ⟨d - 1, by omega⟩
      refine restores.sources sourcesGiven sourcesPrintable fun ts member => ?_
      have inner := length_from member
      omega
    have groupsShort := length_group groups
    have readsGroups : List.Forall₂ (Grammar.ofDepth d).Reads (exprTokens groups) groups :=
      readsNested_list (fun e member =>
        restores.nested (groupsGiven e member) (printable_of_mem groupsPrintable e member)) (by omega)
    have readsCondition : (Grammar.ofDepth d).ReadsOption condition :=
      readsNested_option (restores.option conditionGiven conditionPrintable) [.keyword .where] (by omega)
    have readsHaving : (Grammar.ofDepth d).ReadsOption having :=
      readsNested_option (restores.option havingGiven havingPrintable) [.keyword .having] (by omega)
    exact Takes.bind_atSymbol (takes_select (ofDepth_starts d) readsFields nonempty readsSources
      readsCondition readsGroups readsHaving stop)
  | nested given =>
    simp only [Body.tokens, parenTokens, List.length_cons, List.length_append] at deep
    exact takes_nested (restores.query d _ given printable (by omega))

/-- Bodies with set operators between them are read back if each one is where the token behind it
`follows` one. -/
theorem chained_leads {operand operand' : Parser Body} {op? : Token → Option SetOp} {body : Body}
    (joins : ∀ t op, op? t = some op → t = .keyword op.keyword)
    (starts : StartsWith operand' Token.startsBody) (follows : Token → Prop)
    (behind : ∀ op : SetOp, op? (.keyword op.keyword) = some op → follows (.keyword op.keyword))
    (below : ∀ body, Gives operand body → body.Printable → body.tokens.length ≤ d →
      ∀ rest, follows (ahead rest) → Takes operand' body.tokens body rest)
    (h : Chained operand (takeSetOp? op?) body) (printable : body.Printable)
    (deep : body.tokens.length ≤ d) (stop : follows (ahead rest)) :
    Leads operand' (takeSetOp? op?) body.tokens body rest := by
  induction h generalizing rest with
  | operand given => exact (below _ given printable deep rest stop).leads
  | @combine left right f _ operator given ih =>
    obtain ⟨t, op, all, found, rfl⟩ := operator.of_takeSetOp
    obtain rfl := joins t op found
    simp only [Body.tokens, List.length_cons, List.length_append] at deep
    have taken := below right given printable.2 (by omega) rest stop
    have first : Leads operand' (takeSetOp? op?) left.tokens left
        (.keyword op.keyword :: tokenIf all (.keyword .all) ++ (right.tokens ++ rest)) :=
      ih printable.1 (by omega) (behind op found)
    exact first.step (takes_setOp found (starts.ahead taken)) taken

theorem takes_body (restores : g.Restores) {body : Body} (h : Gives g.body body)
    (printable : body.Printable) (deep : body.tokens.length ≤ d) (stop : 5 < (ahead rest).clauseRank) :
    Takes (Grammar.ofDepth d).body body.tokens body rest := by
  have starts : StartsWith (Grammar.ofDepth d).bodyPrimary Token.startsBody := starts_bodyPrimary _
  have intersections : ∀ b, Gives (Parser.chain g.bodyPrimary (takeSetOp? intersectOp?)) b →
      b.Printable → b.tokens.length ≤ d →
      ∀ r, 4 < (ahead r).clauseRank ∧ intersectOp? (ahead r) = none →
        Takes (Parser.chain (Grammar.ofDepth d).bodyPrimary (takeSetOp? intersectOp?)) b.tokens b r := by
    intro b given p short r follows
    refine (chained_leads ?_ starts (fun t => 4 < t.clauseRank) ?_
      (fun b given p short r => given.of_bodyPrimary.takes restores p short) given.of_chain p short
      follows.1).takes (takes_setOp_none follows.2)
    · intro t op found
      unfold intersectOp? at found
      split at found <;> cases found
      rfl
    · exact fun op _ => by cases op <;> exact (by decide : 4 < 5)
  have above {t : Token} (rank : 5 < t.clauseRank) : intersectOp? t = none ∧ unionOp? t = none := by
    cases t with
    | keyword k => cases k <;> first | exact ⟨rfl, rfl⟩ | exact absurd rank (by decide)
    | _ => exact ⟨rfl, rfl⟩
  refine (chained_leads ?_ starts.bind (fun t => 4 < t.clauseRank ∧ intersectOp? t = none) ?_
    intersections h.of_chain printable deep ⟨by omega, (above stop).1⟩).takes
    (takes_setOp_none (above stop).2)
  · intro t op found
    unfold unionOp? at found
    split at found <;> cases found <;> rfl
  · rintro op found
    cases op <;> first | exact ⟨(by decide : 4 < 5), rfl⟩ | cases found

/-! ## Queries -/

theorem Grammar.Restores.tables (restores : g.Restores) {tables : List InlineDef}
    (given : ∀ name columns q, .mk name columns q ∈ tables → Gives g.query q)
    (printable : tablesPrintable tables) (short : ∀ ts ∈ inlineTokens tables, ts.length ≤ d) :
    (Grammar.ofDepth d).ReadsTables tables := by
  induction tables with
  | nil => trivial
  | cons table tables ih =>
    obtain ⟨name, columns, q⟩ := table
    obtain ⟨-, -, queryPrintable, morePrintable⟩ := printable
    rw [inlineTokens, List.forall_mem_cons, parenTokens] at short
    simp only [List.length_cons, List.length_append] at short
    refine ⟨restores.query d q (given name columns q List.mem_cons_self) queryPrintable (by omega), ?_⟩
    exact ih (fun n c q member => given n c q (List.mem_cons_of_mem _ member)) morePrintable short.2

theorem length_with {recursive : Bool} {tables : List InlineDef} {ts : List Token}
    (h : ts ∈ inlineTokens tables) : ts.length < (withTokens recursive tables).length := by
  have inner : ts.length ≤ (commaTokens (inlineTokens tables)).length := length_le_separated h
  cases tables with
  | nil => cases h
  | cons table tables =>
    rw [withTokens, if_neg (by simp), List.length_cons, List.length_append]
    omega

theorem readsQuery_deeper (restores : g.Restores) {q : Query} (h : Gives g.fullQuery q)
    (printable : q.Printable) (deep : q.tokens.length ≤ d) :
    (Grammar.ofDepth (d + 1)).ReadsQuery q.tokens q := by
  obtain ⟨recursive, tables, body, order, offset, limit⟩ := q
  obtain ⟨tablesPrintable, bodyPrintable, keysPrintable, offsetPrintable, limitPrintable⟩ := printable
  have parts := h.of_fullQuery
  have tokens : (Query.mk recursive tables body order offset limit).tokens
      = withTokens recursive tables ++ (body.tokens ++ (orderByTokens (orderTokens order)
        ++ (clauseTokens [.keyword .offset] offset ++ limit.tokens))) := rfl
  simp only [tokens, List.length_append] at deep
  have readsTables : (Grammar.ofDepth d).ReadsTables tables :=
    restores.tables parts.tables tablesPrintable fun ts member => by
      have inner : ts.length < (withTokens recursive tables).length := length_with member
      omega
  have readsOrder : (Grammar.ofDepth d).ReadsOrder order :=
    restores.sortKeys parts.order keysPrintable fun ts member => by
      have inner := length_lt_orderBy member
      omega
  have readsOffset : (Grammar.ofDepth d).ReadsOption offset := by
    rintro e rfl
    simp only [clauseTokens, List.length_append, List.length_singleton] at deep
    exact restores.nested (parts.offset e rfl) offsetPrintable d (by omega)
  have readsLimit : (Grammar.ofDepth d).ReadsLimit limit := by
    cases limit with
    | all => trivial
    | rows count percent ties =>
      simp only [Limit.tokens, List.length_cons, List.length_append] at deep
      exact restores.nested (parts.limit count percent ties rfl) limitPrintable d (by omega)
  have readsBody : ∀ r, 5 < (ahead r).clauseRank →
      Takes (Grammar.ofDepth d).body body.tokens body r :=
    fun r => takes_body restores parts.body bodyPrintable (by omega)
  exact fun r => takes_fullQuery readsTables parts.flat readsBody readsOrder readsOffset readsLimit

/-! ## The first token of a query -/

/-- The tokens of the body start with the word of a selection. -/
def Selecting (body : Body) : Prop :=
  ∀ rest, ahead (body.tokens ++ rest) = .keyword .select

/-- What the parser gives where a selection starts has its tokens start with one, too. -/
def GivesSelecting (p : Parser Body) : Prop :=
  ∀ ls body rest, ahead (ls.map Lexeme.token) = .keyword .select →
    p ls = .ok (body, rest) → Selecting body

theorem Selecting.combine {left : Body} (h : Selecting left) (op : SetOp) (all : Bool) (right : Body) :
    Selecting (.combine op all left right) := by
  intro rest
  rw [Body.tokens, List.append_assoc]
  exact h _

theorem GivesSelecting.chain {operand : Parser Body} {op? : Token → Option SetOp}
    (h : GivesSelecting operand) : GivesSelecting (Parser.chain operand (takeSetOp? op?)) := by
  have grow {bound : Nat} {left body : Body} (soFar : Selecting left)
      (run : Gives (Parser.chainFrom operand (takeSetOp? op?) bound left) body) : Selecting body := by
    induction bound generalizing left with
    | zero => rwa [run.of_pure]
    | succ bound ih =>
      obtain ⟨f?, operator, run⟩ := run.of_bind
      cases f? with
      | none => rwa [Gives.of_pure run]
      | some f =>
        obtain ⟨right, -, run⟩ := Gives.of_bind run
        obtain ⟨_, op, all, -, rfl⟩ := operator.of_takeSetOp
        exact ih (soFar.combine op all right) run
  intro ls body rest here run
  obtain ⟨left, mid, first, run⟩ := bind_eq_ok.1 run
  obtain ⟨_, _, -, run⟩ := bind_eq_ok.1 run
  exact grow (h ls left mid here first) ⟨_, _, run⟩

theorem givesSelecting_body (g : Grammar) : GivesSelecting g.body := by
  have primary : GivesSelecting g.bodyPrimary := by
    intro ls body rest here run
    obtain ⟨parens, mid, first, second⟩ := bind_eq_ok.1 run
    rw [atSymbol_eq, here] at first
    cases first
    have given : Gives g.selectBody body := ⟨_, _, second⟩
    obtain ⟨_, -, given⟩ := given.of_bind
    obtain ⟨distinct, -, given⟩ := given.of_bind
    obtain ⟨fields, -, given⟩ := given.of_bind
    obtain ⟨sources, -, given⟩ := given.of_bind
    obtain ⟨condition, -, given⟩ := given.of_bind
    obtain ⟨groups, -, given⟩ := given.of_bind
    obtain ⟨having, -, given⟩ := given.of_bind
    rw [given.of_pure]
    exact fun _ => rfl
  exact primary.chain.chain

/-- A query given on tokens that start like one without parentheses has tokens that do so. -/
theorem startsQuery_deeper {q : Query} (h : GivesQuery g.deeper q) :
    (ahead (q.tokens ++ rest)).startsQuery = true := by
  obtain ⟨ls, rs, run, start⟩ := h
  obtain ⟨⟨recursive, tables⟩, mid, first, second⟩ := bind_eq_ok.1 run
  obtain ⟨body, _, main, tail⟩ := bind_eq_ok.1 second
  have whole : ∃ order offset limit, q = .mk recursive tables body order offset limit := by
    have given : Gives _ q := ⟨_, _, tail⟩
    obtain ⟨order, -, given⟩ := Gives.of_bind given
    obtain ⟨early, -, given⟩ := given.of_bind
    obtain ⟨limit, -, given⟩ := given.of_bind
    rcases given.of_ite with ⟨-, given⟩ | ⟨-, given⟩
    all_goals
      obtain ⟨offset, -, given⟩ := given.of_bind
      exact ⟨order, offset, limit, given.of_pure⟩
  obtain ⟨order, offset, limit, rfl⟩ := whole
  obtain ⟨took, _, word, clause⟩ := bind_eq_ok.1 first
  obtain ⟨rfl, rfl⟩ := takeIf_eq_ok.1 word
  cases there : (ahead (ls.map Lexeme.token)).isKeyword .with with
  | true =>
    rw [there] at clause
    have given : Gives _ (recursive, tables) := ⟨_, _, clause⟩
    obtain ⟨_, -, given⟩ := Gives.of_bind given
    obtain ⟨tables', list, given⟩ := given.of_bind
    obtain ⟨rfl, rfl⟩ := Prod.mk.inj given.of_pure
    have nonempty := list.of_separatedBy.1
    rw [Query.tokens, if_neg (by simpa using nonempty)]
    rfl
  | false =>
    rw [there] at clause
    obtain ⟨same, rfl⟩ := pure_eq_ok.1 clause
    cases same
    have select : ahead (ls.map Lexeme.token) = .keyword .select := by
      rw [Token.startsQuery, there, Bool.or_false] at start
      exact Token.isKeyword_iff.1 start
    have starts : Selecting body := givesSelecting_body g _ _ _ select main
    rw [Query.tokens, List.isEmpty_nil, if_pos rfl, List.nil_append, List.append_assoc, starts]
    rfl

/-! ## Every depth -/

theorem restores_empty : Grammar.empty.Restores where
  consuming := consuming_ofDepth 0
  expression _ _ _ h := by
    obtain ⟨_, _, run, -⟩ := h
    exact absurd run unexpected_ne_ok
  query _ _ h := absurd h not_gives_unexpected
  start _ h := absurd h.gives not_gives_unexpected
  source _ _ h := absurd h not_gives_unexpected

theorem Grammar.Restores.deeper (restores : g.Restores) : g.deeper.Restores where
  consuming := ⟨restores.consuming.disjunction, restores.consuming.fullQuery,
    restores.consuming.joinedSource⟩
  expression d e n h printable deep rest stop := by
    obtain ⟨depth, rfl⟩ : ∃ depth, d = depth + 1 := ⟨d - 1, by omega⟩
    exact rereads_disjunction restores e n h printable (by omega) rest stop
  query d q h printable deep := by
    obtain ⟨depth, rfl⟩ : ∃ depth, d = depth + 1 := ⟨d - 1, by omega⟩
    exact readsQuery_deeper restores h printable (by omega)
  start q h rest := startsQuery_deeper h
  source d s h := h.of_joinedSource.reads restores

theorem restores_ofDepth : ∀ depth, (Grammar.ofDepth depth).Restores
  | 0 => restores_empty
  | depth + 1 => (restores_ofDepth depth).deeper

/-! ## Whole texts -/

theorem takes_statement {q : Query} {ts : List Token} (h : g.ReadsQuery ts q) :
    Takes g.statement (ts ++ [.ending]) q rest := by
  refine Takes.bind (h ([.ending] ++ rest) rfl) ?_
  exact Takes.bind_none (takes_takeIf_not rfl) (Takes.bind_one takes_expectEnding (Takes.pure q rest))

theorem parseWith_eq_ok {α : Type} {parser : Grammar → Parser α} {text : String} {a : α} :
    parseWith parser text = .ok a ↔ ∃ ls rest, lexemes text = .ok ls ∧
      parser (Grammar.ofDepth ls.length) ls = .ok (a, rest) := by
  unfold parseWith
  cases lexed : lexemes text with
  | error _ => exact ⟨nofun, nofun⟩
  | ok ls =>
    change Except.map Prod.fst (parser (Grammar.ofDepth ls.length) ls) = _ ↔ _
    constructor
    · intro run
      cases result : parser (Grammar.ofDepth ls.length) ls with
      | error _ =>
        rw [result] at run
        cases run
      | ok result' =>
        rw [result] at run
        cases run
        exact ⟨ls, _, rfl, result⟩
    · rintro ⟨ls', rest, same, run⟩
      cases same
      rw [run]
      rfl

/-- A query that can be printed is parsed from its canonical text, too. -/
theorem parsed_query_prints_back {text : String} {q : Query} (parsed : parseQuery text = .ok q)
    (printable : q.Printable) : parseQuery q.text = .ok q := by
  obtain ⟨ls, rest, -, run⟩ := parseWith_eq_ok.1 parsed
  have given : Gives (Grammar.ofDepth ls.length).query q := by
    obtain ⟨q', given, statement⟩ := Gives.of_bind ⟨ls, rest, run⟩
    obtain ⟨_, -, statement⟩ := statement.of_bind
    obtain ⟨_, -, statement⟩ := statement.of_bind
    rwa [statement.of_pure]
  obtain ⟨ls', lexed, tokens⟩ := (Query.spells q printable).lexemes
  have deep : q.tokens.length < (ls' ++ [(⟨.ending, q.text.length⟩ : Lexeme)]).length := by
    rw [← tokens, List.length_map, List.length_append]
    exact Nat.lt_succ_self _
  have reads := (restores_ofDepth ls.length).query _ q given printable deep
  refine parseWith_eq_ok.2 ⟨_, [], lexed, ?_⟩
  have took := takes_statement reads (ls' ++ [⟨.ending, q.text.length⟩]) []
    (by rw [List.map_append, tokens]; rfl) rfl
  rwa [List.append_nil] at took

end

/-- A ranking of rows, on a join with a list of values. -/
def rankedText : String :=
  "with x as (select -1) select -`n`, rank() over (order by n) from x natural join (values (-2.5)) v (n)"

def rankedLexemes : List Lexeme :=
  [⟨.keyword .with, 0⟩, ⟨.identifier "x", 5⟩, ⟨.keyword .as, 7⟩, ⟨.symbol .leftParen, 10⟩,
    ⟨.keyword .select, 11⟩, ⟨.symbol .minus, 18⟩, ⟨.integer 1, 19⟩, ⟨.symbol .rightParen, 20⟩,
    ⟨.keyword .select, 22⟩, ⟨.symbol .minus, 29⟩, ⟨.quoted "n", 30⟩, ⟨.symbol .comma, 33⟩,
    ⟨.identifier "rank", 35⟩, ⟨.symbol .leftParen, 39⟩, ⟨.symbol .rightParen, 40⟩,
    ⟨.identifier "over", 42⟩, ⟨.symbol .leftParen, 47⟩, ⟨.keyword .order, 48⟩, ⟨.keyword .by, 54⟩,
    ⟨.identifier "n", 57⟩, ⟨.symbol .rightParen, 58⟩, ⟨.keyword .from, 60⟩, ⟨.identifier "x", 65⟩,
    ⟨.keyword .natural, 67⟩, ⟨.keyword .join, 75⟩, ⟨.symbol .leftParen, 80⟩,
    ⟨.keyword .values, 81⟩, ⟨.symbol .leftParen, 88⟩, ⟨.symbol .minus, 89⟩, ⟨.float 2.5, 90⟩,
    ⟨.symbol .rightParen, 93⟩, ⟨.symbol .rightParen, 94⟩, ⟨.identifier "v", 96⟩,
    ⟨.symbol .leftParen, 98⟩, ⟨.identifier "n", 99⟩, ⟨.symbol .rightParen, 100⟩, ⟨.ending, 101⟩]

def rankedQuery : Query :=
  .mk false
    [.mk "x" []
      (.mk false [] (.select false [.mk (.literal (.integer (-1))) none] [] none [] none) [] none .all)]
    (.select false
      [.mk (.signed .minus (.column none "n")) none,
        .mk (.window "RANK" false [] [] [.mk (.column none "n") none none]) none]
      [.join .inner (.named "x" none) (.values [[.literal (.float (-2.5))]] (some "v") ["n"]) .natural]
      none [] none)
    [] none .all

theorem parsed_query_prints_back_ranked : parseQuery rankedText = .ok rankedQuery ∧
    rankedQuery.Printable ∧ parseQuery rankedQuery.text = .ok rankedQuery := by
  have lexed : (lexemes rankedText).toOption = some rankedLexemes := by decide +kernel
  have parsed : parseQuery rankedText = .ok rankedQuery :=
    parseWith_eq_ok.2 ⟨rankedLexemes, [], toOption_eq_some lexed, rfl⟩
  have printable : rankedQuery.Printable := by
    simp only [rankedQuery, Query.Printable, tablesPrintable, Body.Printable, fieldsPrintable,
      sourcesPrintable, optionPrintable, orderPrintable, allPrintable, Source.Printable,
      Expr.Printable, Literal.Printable, Limit.Printable, rowsPrintable, JoinMatch.Printable]
    decide +kernel
  exact ⟨parsed, printable, parsed_query_prints_back parsed printable⟩

end TableQuery.Language
