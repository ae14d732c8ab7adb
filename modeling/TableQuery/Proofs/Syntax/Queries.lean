import TableQuery.Proofs.Syntax.Clauses

/-!
# How queries are read

What the rules of the grammar for the bodies of queries and for whole queries take.
-/

namespace TableQuery.Language

open Language.Grammar

/-- The grammar below reads the source in front of the next one or of a clause. -/
def Grammar.ReadsSource (g : Grammar) (s : Source) : Prop :=
  ∀ rest, (ahead rest).closes = true → Takes g.source s.tokens s rest

/-- The grammar below reads the fields. -/
def Grammar.ReadsFields (g : Grammar) : List Field → Prop
  | [] => True
  | .mk e _ :: fields => g.Reads e.tokens e ∧ g.ReadsFields fields

/-- The grammar below reads the queries of the inline tables. -/
def Grammar.ReadsTables (g : Grammar) : List InlineDef → Prop
  | [] => True
  | .mk _ _ q :: tables => g.ReadsQuery q.tokens q ∧ g.ReadsTables tables

section

variable {g : Grammar} {ts us rest : List Token} {e : Expr} {q : Query} {t : Token}

/-! ## Selections -/

variable {fields : List Field} {sources : List Source} {condition having : Option Expr}
  {groups : List Expr} {distinct all : Bool}

theorem takes_takeDistinct (stop : (ahead rest).isKeyword .distinct = false)
    (stop' : (ahead rest).isKeyword .all = false) :
    Takes takeDistinct (tokenIf distinct (.keyword .distinct)) distinct rest := by
  cases distinct with
  | true => exact Takes.bind_one (takes_keyword .distinct) (Takes.pure true rest)
  | false =>
    refine Takes.bind_none (takes_takeIf_not stop) ?_
    exact Takes.bind_none (takes_takeIf_not stop') (Takes.pure false rest)

theorem takes_takeAll (stop : (ahead rest).isKeyword .distinct = false)
    (stop' : (ahead rest).isKeyword .all = false) :
    Takes takeAll (tokenIf all (.keyword .all)) all rest := by
  cases all with
  | true => exact Takes.bind_one (takes_keyword .all) (Takes.pure true rest)
  | false =>
    refine Takes.bind_none (takes_takeIf_not stop') ?_
    exact Takes.bind_none (takes_takeIf_not stop) (Takes.pure false rest)

theorem Token.not_quantifier (h : t.startsExpression = true) :
    t.isKeyword .distinct = false ∧ t.isKeyword .all = false := by
  cases t with
  | keyword k => cases k <;> first | exact ⟨rfl, rfl⟩ | cases h
  | _ => exact ⟨rfl, rfl⟩

theorem takes_fields (h : g.ReadsFields fields) (nonempty : fields ≠ [])
    (stop : 0 < (ahead rest).clauseRank) :
    Takes (Parser.commaSeparated g.field) (commaTokens (fieldTokens fields)) fields rest := by
  refine takes_items ?_ nonempty stop
  clear nonempty stop
  induction fields with
  | nil => exact .nil
  | cons field fields ih =>
    obtain ⟨e, aliasName⟩ := field
    refine .cons (fun r closes => ?_) (ih h.2)
    obtain ⟨noAs, noName⟩ := Token.not_name_of_closes closes
    refine Takes.bind (h.1 _ ?_) (takes_alias noAs noName).bind_pure
    cases aliasName with
    | none => exact tightness_of_closes closes
    | some name => rfl

theorem takes_sources (h : ∀ s ∈ sources, g.ReadsSource s) (nonempty : sources ≠ [])
    (stop : 0 < (ahead rest).clauseRank) :
    Takes (Parser.commaSeparated g.source) (commaTokens (sourceTokens sources)) sources rest := by
  refine takes_items ?_ nonempty stop
  clear nonempty stop
  induction sources with
  | nil => exact .nil
  | cons s sources ih =>
    rw [List.forall_mem_cons] at h
    exact .cons h.1 (ih h.2)

/-- The tokens of the `FROM` clause. -/
def fromTokens (sources : List Source) : List Token :=
  if sources.isEmpty then [] else .keyword .from :: commaTokens (sourceTokens sources)

/-- The tokens of the `GROUP BY` clause. -/
def groupTokens (groups : List Expr) : List Token :=
  if groups.isEmpty then [] else .keyword .group :: .keyword .by :: commaTokens (exprTokens groups)

/-- A selection, whose clauses stand in their order. -/
theorem takes_select (starts : g.Starts) (readsFields : g.ReadsFields fields) (nonempty : fields ≠ [])
    (readsSources : ∀ s ∈ sources, g.ReadsSource s) (readsCondition : g.ReadsOption condition)
    (readsGroups : List.Forall₂ g.Reads (exprTokens groups) groups)
    (readsHaving : g.ReadsOption having) (stop : 4 < (ahead rest).clauseRank) :
    Takes g.selectBody (Body.select distinct fields sources condition groups having).tokens
      (.select distinct fields sources condition groups having) rest := by
  -- each clause stands in front of clauses of higher ranks
  have rankHaving : 4 ≤ (ahead (clauseTokens [.keyword .having] having ++ rest)).clauseRank :=
    clauseRank_append (startsClause_clause rfl) (Nat.le_of_lt stop)
  have rankGroups : 3 ≤ (ahead (groupTokens groups
      ++ clauseTokens [.keyword .having] having ++ rest)).clauseRank := by
    rw [List.append_assoc]
    exact clauseRank_append (startsClause_list rfl) (Nat.le_of_lt rankHaving)
  have rankCondition : 2 ≤ (ahead (clauseTokens [.keyword .where] condition
      ++ (groupTokens groups ++ clauseTokens [.keyword .having] having) ++ rest)).clauseRank := by
    rw [List.append_assoc]
    exact clauseRank_append (startsClause_clause rfl) (Nat.le_of_lt rankGroups)
  have rankSources : 1 ≤ (ahead (fromTokens sources ++ (clauseTokens [.keyword .where] condition
      ++ (groupTokens groups ++ clauseTokens [.keyword .having] having)) ++ rest)).clauseRank := by
    rw [List.append_assoc]
    exact clauseRank_append (startsClause_list rfl) (Nat.le_of_lt rankCondition)
  have takesFields := takes_fields readsFields nonempty rankSources
  have takesSources : Takes (Parser.afterKeyword? .from (Parser.commaSeparated g.source))
      (fromTokens sources) _ _ :=
    takes_optionalList (fun full => takes_sources readsSources full (by omega))
      (Token.not_keyword_of_rank rankCondition)
  have takesCondition : Takes (Parser.afterKeyword? .where g.expression) _ condition _ :=
    takes_afterKeyword readsCondition (tightness_of_rank (by omega))
      (Token.not_keyword_of_rank rankGroups)
  have takesGroups : Takes (Parser.afterKeyword? .group do
      Parser.expectKeyword .by
      g.expressions) (groupTokens groups) _ _ :=
    takes_optionalList (fun full => Takes.bind_one (takes_expectKeyword .by)
        (takes_expressions readsGroups full (tightness_of_rank (by omega))
          (Token.not_comma_of_rank (by omega))))
      (Token.not_keyword_of_rank rankHaving)
  have takesHaving : Takes (Parser.afterKeyword? .having g.expression) _ having rest :=
    takes_afterKeyword readsHaving (tightness_of_rank (by omega)) (Token.not_keyword_of_rank stop)
  have quantifier := Token.not_quantifier (starts.expression.bind.bind.ahead takesFields)
  rw [← List.append_assoc] at quantifier
  have result : Body.select distinct fields sources condition groups having =
      .select distinct fields ((if sources.isEmpty then none else some sources).getD []) condition
        ((if groups.isEmpty then none else some groups).getD []) having := by
    rw [getD_optionalList, getD_optionalList]
  rw [Body.tokens, result]
  refine Takes.bind_one (takes_expectKeyword .select) ?_
  refine Takes.bind (takes_takeDistinct quantifier.1 quantifier.2) ?_
  refine Takes.bind takesFields (Takes.bind takesSources (Takes.bind takesCondition ?_))
  exact Takes.bind takesGroups takesHaving.bind_pure

/-! ## Set operations -/

theorem takes_nested (h : g.ReadsQuery ts q) :
    Takes g.bodyPrimary (parenTokens ts) (.nested q) rest :=
  Takes.bind_atSymbol (Takes.inParens (h _ rfl)).map

theorem takes_setOp {op? : Token → Option SetOp} {op : SetOp}
    (operator : op? (.keyword op.keyword) = some op) (next : (ahead rest).startsBody = true) :
    Takes (takeSetOp? op?) (.keyword op.keyword :: tokenIf all (.keyword .all))
      (some (.combine op all)) rest := by
  have stop : (ahead rest).isKeyword .distinct = false ∧ (ahead rest).isKeyword .all = false := by
    generalize ahead rest = t at next
    cases t with
    | keyword k => cases k <;> first | exact ⟨rfl, rfl⟩ | cases next
    | _ => exact ⟨rfl, rfl⟩
  refine Takes.bind_one (takes_operator operator) ?_
  exact (takes_takeAll stop.1 stop.2).bind_pure

theorem takes_setOp_none {op? : Token → Option SetOp} (h : op? (ahead rest) = none) :
    Takes (takeSetOp? op?) [] none rest :=
  Takes.bind_none (takes_operator_none h) (Takes.pure none rest)

/-! ## Inline tables -/

variable {recursive : Bool} {tables : List InlineDef}

theorem takes_inlineDef {name : String} {columns : List String} (h : g.ReadsQuery q.tokens q) :
    Takes g.inlineDef (.identifier name :: (columnsTokens columns
      ++ .keyword .as :: parenTokens q.tokens)) (.mk name columns q) rest := by
  have body : Takes (do
      Parser.expectKeyword .as
      return InlineDef.mk name columns (← Parser.inParens g.query))
      (.keyword .as :: parenTokens q.tokens) (.mk name columns q) rest :=
    Takes.bind_one (takes_expectKeyword .as) (Takes.inParens (h _ rfl)).bind_pure
  refine Takes.bind_one (takes_expectName _ name) (Takes.bind_atSymbol ?_)
  cases columns with
  | nil => exact Takes.bind_none (Takes.pure [] _) body
  | cons column columns => exact Takes.bind (takes_columnNames (List.cons_ne_nil _ _)) body

/-- The tokens of the `WITH` clause. -/
def withTokens (recursive : Bool) (tables : List InlineDef) : List Token :=
  if tables.isEmpty then []
  else .keyword .with :: (tokenIf recursive (.keyword .recursive) ++ commaTokens (inlineTokens tables))

theorem takes_inlineDefs (h : g.ReadsTables tables) (flat : tables = [] → recursive = false)
    (next : (ahead rest).isKeyword .with = false) (comma : ahead rest ≠ .symbol .comma) :
    Takes g.inlineDefs (withTokens recursive tables) (recursive, tables) rest := by
  have list : List.Forall₂ (fun ts table => ∀ r, r = rest ∨ ahead r = .symbol .comma →
      Takes g.inlineDef ts table r) (inlineTokens tables) tables := by
    clear flat
    induction tables with
    | nil => exact .nil
    | cons table tables ih =>
      obtain ⟨name, columns, q⟩ := table
      exact .cons (fun _ _ => takes_inlineDef h.1) (ih h.2)
  cases tables with
  | nil =>
    rw [flat rfl]
    exact Takes.bind_none (takes_takeIf_not next) (Takes.pure _ rest)
  | cons table tables =>
    obtain ⟨name, columns, q⟩ := table
    refine Takes.bind_one (takes_keyword .with) (Takes.bind (a := recursive) ?_ ?_)
    · cases recursive with
      | true => exact takes_keyword .recursive
      | false =>
        refine takes_takeIf_not ?_
        rw [inlineTokens, commaTokens, separated_cons]
        rfl
    · exact (takes_separatedBy (TakesList.of_each list) (List.cons_ne_nil _ _) comma).bind_pure

/-! ## Whole queries -/

variable {offset : Option Expr} {limit : Limit}

/-- The grammar below reads the count of rows. -/
def Grammar.ReadsLimit (g : Grammar) : Limit → Prop
  | .all => True
  | .rows count _ _ => g.Reads count.tokens count

theorem takes_offset (h : g.ReadsOption offset) (stop : 7 < (ahead rest).clauseRank) :
    Takes g.offset (clauseTokens [.keyword .offset] offset) offset rest := by
  cases offset with
  | none => exact takes_afterKeyword_none (Token.not_keyword_of_rank stop)
  | some e =>
    have noRow : (ahead rest).isWord "ROW" = false ∧ (ahead rest).isWord "ROWS" = false := by
      generalize ahead rest = t at stop
      cases t <;> first | exact ⟨rfl, rfl⟩ | cases stop
    refine Takes.afterKeyword (Takes.bind_nil (h e rfl rest (tightness_of_rank (by omega))) ?_)
    refine Takes.bind_none (takes_takeIf_not noRow.1) ?_
    exact Takes.bind_none (takes_takeIf_not noRow.2) (Takes.pure e rest)

theorem takes_ties {ties : Bool} (stop : (ahead rest).isKeyword .with = false) :
    Takes takeTies (if ties then [.keyword .with, .identifier "TIES"] else []) ties rest := by
  refine Takes.bind_peek (Takes.bind_peekSecond ?_)
  cases ties with
  | true =>
    have word : Text.sameIgnoringCase "TIES" "TIES" = true := by decide
    have tests : ((Token.keyword .with).isKeyword .with && (Token.identifier "TIES").isWord "TIES")
        = true := word
    simp only [if_true, List.cons_append, ahead, List.headD_cons, List.tail_cons]
    rw [if_pos tests]
    exact Takes.bind_one takes_advance (Takes.bind_one takes_advance (Takes.pure true rest))
  | false =>
    have tests : ((ahead rest).isKeyword .with && (ahead rest.tail).isWord "TIES") = false := by
      rw [stop, Bool.false_and]
    simp only [Bool.false_eq_true, if_false, List.nil_append, tests]
    exact Takes.pure false rest

theorem Token.not_limiting_of_rank (h : 8 < t.clauseRank) :
    t.isKeyword .with = false ∧ t.isWord "PERCENT" = false := by
  cases t with
  | keyword k => cases k <;> first | exact ⟨rfl, rfl⟩ | simp [clauseRank] at h
  | symbol | ending => exact ⟨rfl, rfl⟩
  | _ => simp [clauseRank] at h

theorem takes_limit (h : g.ReadsLimit limit) (stop : 8 < (ahead rest).clauseRank) :
    Takes g.limit limit.tokens limit rest := by
  obtain ⟨noWith, noPercent⟩ := Token.not_limiting_of_rank stop
  match limit with
  | .all =>
    have noLimit : (ahead rest).isKeyword .limit = false := Token.not_keyword_of_rank stop
    exact Takes.bind_none (takes_takeIf_not noLimit) (Takes.pure _ rest)
  | .rows count percent ties =>
    have loose : tightness (tokenIf percent (.identifier "PERCENT")
        ++ (if ties then [.keyword .with, .identifier "TIES"] else []) ++ rest) = 0 := by
      match percent, ties with
      | true, _ => exact tightness_word (by decide) _
      | false, true => rfl
      | false, false => exact tightness_of_rank (Nat.zero_lt_of_lt stop)
    refine Takes.bind_one (takes_keyword .limit) (Takes.bind (h _ loose) ?_)
    refine Takes.bind (a := percent) ?_ (takes_ties noWith).bind_pure
    match percent, ties with
    | true, _ => exact takes_word (by decide)
    | false, true => exact takes_takeIf_not rfl
    | false, false => exact takes_takeIf_not noPercent

theorem Token.rank_of_endsQuery (h : t.endsQuery = true) : t.clauseRank = 9 := by
  unfold endsQuery at h
  split at h <;> first | rfl | cases h

theorem Token.not_with_of_startsBody (h : t.startsBody = true) :
    t.isKeyword .with = false ∧ t ≠ .symbol .comma := by
  cases t with
  | keyword k => cases k <;> first | exact ⟨rfl, nofun⟩ | cases h
  | symbol s =>
    cases s with
    | comma => cases h
    | _ => exact ⟨rfl, nofun⟩
  | _ => exact ⟨rfl, nofun⟩

theorem startsClause_limit (limit : Limit) : StartsClause 8 limit.tokens := by
  cases limit <;> rintro t ⟨⟩
  rfl

/-- A whole query, whose body is read in front of the clauses behind it. -/
theorem takes_fullQuery {body : Body} {order : List OrderItem} (readsTables : g.ReadsTables tables)
    (flat : tables = [] → recursive = false)
    (readsBody : ∀ r, 5 < (ahead r).clauseRank → Takes g.body body.tokens body r)
    (readsOrder : g.ReadsOrder order) (readsOffset : g.ReadsOption offset)
    (readsLimit : g.ReadsLimit limit) (stop : (ahead rest).endsQuery = true) :
    Takes g.fullQuery (Query.mk recursive tables body order offset limit).tokens
      (.mk recursive tables body order offset limit) rest := by
  have rankEnd := Token.rank_of_endsQuery stop
  have rankLimit : 8 ≤ (ahead (limit.tokens ++ rest)).clauseRank :=
    clauseRank_append (startsClause_limit limit) (by omega)
  have rankOffset : 7 ≤ (ahead (clauseTokens [.keyword .offset] offset ++ limit.tokens
      ++ rest)).clauseRank := by
    rw [List.append_assoc]
    exact clauseRank_append (startsClause_clause rfl) (by omega)
  have rankOrder : 6 ≤ (ahead (orderByTokens (orderTokens order)
      ++ (clauseTokens [.keyword .offset] offset ++ limit.tokens) ++ rest)).clauseRank := by
    rw [List.append_assoc]
    exact clauseRank_append (startsClause_list rfl) (by omega)
  have takesBody := readsBody _ rankOrder
  have start := (starts_body g).ahead takesBody
  rw [← List.append_assoc] at start
  have takesLimit := takes_limit readsLimit (Nat.lt_of_lt_of_eq (by decide) rankEnd.symm)
  have takesOffset := takes_offset readsOffset rankLimit
  have takesEnd : Takes (do
      let early ← g.offset
      let limit ← g.limit
      let offset ← if early.isSome then pure early else g.offset
      return Query.mk recursive tables body order offset limit)
      (clauseTokens [.keyword .offset] offset ++ limit.tokens)
      (.mk recursive tables body order offset limit) rest := by
    refine Takes.bind takesOffset (Takes.bind_nil takesLimit ?_)
    cases offset with
    | some e => exact Takes.bind_none (Takes.pure _ rest) (Takes.pure _ rest)
    | none =>
      have noOffset : Takes g.offset (clauseTokens [.keyword .offset] none) none rest :=
        takes_offset readsOffset (by omega)
      exact Takes.bind_none noOffset (Takes.pure _ rest)
  obtain ⟨noWith, noComma⟩ := Token.not_with_of_startsBody start
  refine Takes.bind (takes_inlineDefs readsTables flat noWith noComma) ?_
  exact Takes.bind takesBody (Takes.bind (takes_order readsOrder rankOffset) takesEnd)

end

end TableQuery.Language
