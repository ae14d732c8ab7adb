import TableQuery.Proofs.Syntax.Nesting

/-!
# How clauses are read

What the rules of the grammar for sort keys, windows, sources and queries take. The clauses of a query
stand in a fixed order, so an optional clause is missing where a later one comes next.
-/

namespace TableQuery.Language

open Language.Grammar

/-! ## What follows a clause -/

/-- Where the clause that a token starts stands in a query. The end of a query stands behind all
clauses; zero is for tokens that start no clause. -/
def Token.clauseRank : Token → Nat
  | .keyword .from => 1
  | .keyword .where => 2
  | .keyword .group => 3
  | .keyword .having => 4
  | .keyword .union | .keyword .except | .keyword .intersect => 5
  | .keyword .order => 6
  | .keyword .offset => 7
  | .keyword .limit => 8
  | .symbol .rightParen | .symbol .semicolon | .ending => 9
  | _ => 0

/-- Whether an item of a list may end in front of the token. -/
def Token.closes (t : Token) : Bool :=
  t.isSymbol .comma || t.clauseRank != 0

/-- Where a clause starts, it is the one of the rank. -/
def StartsClause (rank : Nat) (ts : List Token) : Prop :=
  ∀ t ∈ ts.head?, t.clauseRank = rank

section

variable {α : Type} {g : Grammar} {ts us rest : List Token} {e : Expr} {q : Query} {t : Token}
  {k : Keyword} {rank : Nat}

theorem Token.closes_of_rank (h : 0 < t.clauseRank) : t.closes = true := by
  rw [closes, Bool.or_eq_true, bne_iff_ne]
  exact .inr (Nat.ne_of_gt h)

theorem tightness_of_closes (h : (ahead rest).closes = true) : tightness rest = 0 := by
  rcases rest with _ | ⟨t, rest⟩
  · rfl
  · cases t with
    | keyword k => cases k <;> first | rfl | cases h
    | symbol s => cases s <;> first | rfl | cases h
    | ending => rfl
    | _ => cases h

theorem Token.not_name_of_closes (h : t.closes = true) :
    t.isKeyword .as = false ∧ t.name? = none := by
  cases t with
  | keyword k => cases k <;> first | exact ⟨rfl, rfl⟩ | cases h
  | symbol | ending => exact ⟨rfl, rfl⟩
  | _ => cases h

theorem tightness_of_rank (h : 0 < (ahead rest).clauseRank) : tightness rest = 0 :=
  tightness_of_closes (Token.closes_of_rank h)

theorem Token.not_comma_of_rank (h : 0 < t.clauseRank) : t ≠ .symbol .comma := by
  rintro rfl
  cases h

/-- A keyword of an earlier clause does not come next. -/
theorem Token.not_keyword_of_rank (h : (Token.keyword k).clauseRank < t.clauseRank) :
    t.isKeyword k = false := by
  rw [← Bool.not_eq_true, Token.isKeyword_iff]
  rintro rfl
  exact Nat.lt_irrefl _ h

theorem clauseRank_append (h : StartsClause rank ts) (later : rank ≤ (ahead rest).clauseRank) :
    rank ≤ (ahead (ts ++ rest)).clauseRank := by
  cases ts with
  | nil => exact later
  | cons t ts => exact Nat.le_of_eq (h t rfl).symm

theorem startsClause_clause {clause : Option Expr} (h : (Token.keyword k).clauseRank = rank) :
    StartsClause rank (clauseTokens [.keyword k] clause) := by
  cases clause with
  | none => rintro t ⟨⟩
  | some e =>
    rintro t ⟨⟩
    exact h

theorem startsClause_list {xs : List α} (h : t.clauseRank = rank) :
    StartsClause rank (if xs.isEmpty then [] else t :: ts) := by
  split
  · rintro u ⟨⟩
  · rintro u ⟨⟩
    exact h

/-! ## Optional parts -/

/-- A list that is missing if it is empty. -/
theorem takes_optionalList {p : Parser (List α)} {xs : List α} (h : xs ≠ [] → Takes p ts xs rest)
    (other : (ahead rest).isKeyword k = false) :
    Takes (Parser.afterKeyword? k p) (if xs.isEmpty then [] else .keyword k :: ts)
      (if xs.isEmpty then none else some xs) rest := by
  cases xs with
  | nil => exact takes_afterKeyword_none other
  | cons x xs => exact Takes.afterKeyword (h (List.cons_ne_nil x xs))

theorem getD_optionalList (xs : List α) : (if xs.isEmpty then none else some xs).getD [] = xs := by
  cases xs <;> rfl

theorem takes_word {name word : String} (h : Text.sameIgnoringCase name word = true) :
    Takes (Parser.takeWord word) [.identifier name] true rest :=
  takes_takeIf h

/-- A list of items in a clause. -/
theorem takes_items {p : Parser α} {items : List (List Token)} {xs : List α}
    (list : List.Forall₂ (fun ts x => ∀ r, (ahead r).closes = true → Takes p ts x r) items xs)
    (nonempty : xs ≠ []) (stop : 0 < (ahead rest).clauseRank) :
    Takes (Parser.commaSeparated p) (commaTokens items) xs rest := by
  refine takes_separatedBy (TakesList.of_each (list.imp fun ts x reads r follow => reads r ?_))
    nonempty (Token.not_comma_of_rank stop)
  rcases follow with rfl | follow
  · exact Token.closes_of_rank stop
  · rw [follow]
    rfl

/-! ## Sort keys -/

/-- The grammar below reads the keys. -/
def Grammar.ReadsOrder (g : Grammar) : List OrderItem → Prop
  | [] => True
  | .mk key _ _ :: items => g.Reads key.tokens key ∧ g.ReadsOrder items

theorem takes_direction {direction : Option Direction} (h : direction? (ahead rest) = none) :
    Takes (Parser.takeOperator? direction?) (directionTokens direction) direction rest := by
  cases direction with
  | none => exact takes_operator_none h
  | some d => cases d <;> exact takes_operator rfl

theorem takes_nulls {nulls : Option NullPlacement} (h : (ahead rest).isWord "NULLS" = false) :
    Takes takeNulls? (nullsTokens nulls) nulls rest := by
  match nulls with
  | none => exact Takes.bind_none (takes_takeIf_not h) (Takes.pure none rest)
  | some .first =>
    refine Takes.bind_one (takes_word (by decide)) ?_
    exact Takes.bind_one (takes_word (by decide)) (Takes.pure _ rest)
  | some .last =>
    have other : Text.sameIgnoringCase "LAST" "FIRST" = false := by decide
    refine Takes.bind_one (takes_word (by decide)) (Takes.bind_none (takes_takeIf_not other) ?_)
    exact Takes.bind_one (takes_word (by decide)) (Takes.pure _ rest)

/-- Where sort keys may end: no operator, direction or place of NULLs follows. -/
structure EndsKeys (rest : List Token) : Prop where
  loose : tightness rest = 0
  direction : direction? (ahead rest) = none
  nulls : (ahead rest).isWord "NULLS" = false

theorem endsKeys_of_closes (h : (ahead rest).closes = true) : EndsKeys rest := by
  refine ⟨tightness_of_closes h, ?_, ?_⟩
  all_goals
    revert h
    cases ahead rest with
    | keyword k => cases k <;> first | exact fun _ => rfl | nofun
    | symbol | ending => exact fun _ => rfl
    | _ => nofun

/-- A word that goes on with no call ends the expression in front of it. -/
theorem tightness_word {word : String} (h : (Text.sameIgnoringCase word "OVER"
    || Text.sameIgnoringCase word "WITHIN") = false) (rest : List Token) :
    tightness (.identifier word :: rest) = 0 := by
  rw [tightness, if_neg (by rw [h]; exact Bool.false_ne_true)]

theorem takes_orderItem {key : Expr} {direction : Option Direction} {nulls : Option NullPlacement}
    (h : g.Reads key.tokens key) (stop : EndsKeys rest) :
    Takes g.orderItem (key.tokens ++ (directionTokens direction ++ nullsTokens nulls))
      (.mk key direction nulls) rest := by
  refine Takes.bind (h _ ?_) (Takes.bind (takes_direction ?_) (takes_nulls stop.nulls).bind_pure)
  · match direction, nulls with
    | none, none => exact stop.loose
    | some .asc, _ | some .desc, _ => rfl
    | none, some .first | none, some .last => exact tightness_word (by decide) _
  · match nulls with
    | none => exact stop.direction
    | some .first | some .last => rfl

/-- Sort keys, in front of anything that goes on with none. -/
theorem takes_order_before {items : List OrderItem} (h : g.ReadsOrder items) (stop : EndsKeys rest)
    (comma : ahead rest ≠ .symbol .comma) (other : (ahead rest).isKeyword .order = false) :
    Takes g.order (orderByTokens (orderTokens items)) items rest := by
  have list : List.Forall₂ (fun ts x => ∀ r, EndsKeys r → Takes g.orderItem ts x r)
      (orderTokens items) items := by
    clear stop comma other
    induction items with
    | nil => exact .nil
    | cons item items ih =>
      obtain ⟨key, direction, nulls⟩ := item
      exact .cons (fun r ends => takes_orderItem h.1 ends) (ih h.2)
  cases items with
  | nil => exact Takes.bind_none (takes_takeIf_not other) (Takes.pure [] rest)
  | cons item items =>
    obtain ⟨key, direction, nulls⟩ := item
    refine Takes.bind_one (takes_keyword .order) (Takes.bind_one (takes_expectKeyword .by) ?_)
    refine takes_separatedBy (TakesList.of_each (list.imp fun ts x reads r follow => reads r ?_))
      (List.cons_ne_nil _ _) comma
    rcases follow with rfl | follow
    · exact stop
    · exact endsKeys_of_closes (by rw [follow]; rfl)

theorem takes_order {items : List OrderItem} (h : g.ReadsOrder items)
    (stop : 6 < (ahead rest).clauseRank) :
    Takes g.order (orderByTokens (orderTokens items)) items rest :=
  have ranked : 0 < (ahead rest).clauseRank := Nat.zero_lt_of_lt stop
  takes_order_before h (endsKeys_of_closes (Token.closes_of_rank ranked))
    (Token.not_comma_of_rank ranked) (Token.not_keyword_of_rank stop)

/-! ## Windows -/

variable {name : String} {args partition : List Expr} {order : List OrderItem} {distinct : Bool}
  {items : List (List Token)}

/-- The sort keys of texts that are joined. -/
theorem takes_callEnd_within (h : g.ReadsOrder order) (stop : tightness rest ≠ 8) :
    Takes (g.callEnd "LISTAGG" distinct args [])
      (.identifier "WITHIN" :: .keyword .group :: parenTokens (orderByTokens (orderTokens order)))
      (.listAggregate "LISTAGG" distinct args order) rest := by
  have keys : Takes (Parser.inParens g.order) (parenTokens (orderByTokens (orderTokens order))) order
      rest := Takes.inParens (takes_order h (by show 6 < 9; decide))
  have result : Takes (g.callResult "LISTAGG" distinct args order) []
      (.listAggregate "LISTAGG" distinct args order) rest := takes_callResult stop
  unfold Grammar.callEnd
  rw [if_pos (by decide)]
  refine Takes.bind_one (takes_word (by decide)) ?_
  exact Takes.bind_one (takes_expectKeyword .group) (keys.bind_nil result)

/-- The window of a call. The sort keys of the call itself do not get into the expression. -/
theorem takes_callResult_over (partitionReads : List.Forall₂ g.Reads items partition)
    (orderReads : g.ReadsOrder order) (keys : List OrderItem) :
    Takes (g.callResult name distinct args keys)
      (.identifier "OVER" :: parenTokens (overTokens items (orderTokens order)))
      (.window name distinct args partition order) rest := by
  have inner : Takes (do
      let partition ←
        if ← Parser.takeWord "PARTITION" then
          Parser.expectKeyword .by
          g.expressions
        else
          pure []
      return Expr.window name distinct args partition (← g.order))
      (overTokens items (orderTokens order)) (.window name distinct args partition order)
      (.symbol .rightParen :: rest) := by
    have keys : Takes g.order (orderByTokens (orderTokens order)) order (.symbol .rightParen :: rest) :=
      takes_order orderReads (by show 6 < 9; decide)
    have next : (ahead (orderByTokens (orderTokens order) ++ .symbol .rightParen :: rest)).closes = true
        ∧ (ahead (orderByTokens (orderTokens order) ++ .symbol .rightParen :: rest)).isWord "PARTITION"
          = false ∧
        ahead (orderByTokens (orderTokens order) ++ .symbol .rightParen :: rest) ≠ .symbol .comma := by
      rw [orderByTokens]
      split <;> exact ⟨rfl, rfl, nofun⟩
    obtain ⟨closes, noPartition, noComma⟩ := next
    cases partitionReads with
    | nil =>
      exact Takes.bind_none (takes_takeIf_not noPartition)
        (Takes.bind_none (Takes.pure [] _) keys.bind_pure)
    | @cons ts e items partition head tail =>
      have list := takes_expressions (.cons head tail) (List.cons_ne_nil _ _)
        (tightness_of_closes closes) noComma
      refine Takes.bind_one (takes_word (by decide)) (Takes.bind_one (takes_expectKeyword .by) ?_)
      exact Takes.bind list keys.bind_pure
  exact Takes.bind_one (takes_word (by decide)) (Takes.inParens inner)

/-- The window of a call, behind its arguments. -/
theorem takes_callEnd_over (partitionReads : List.Forall₂ g.Reads items partition)
    (orderReads : g.ReadsOrder order) :
    Takes (g.callEnd name distinct args [])
      (.identifier "OVER" :: parenTokens (overTokens items (orderTokens order)))
      (.window name distinct args partition order) rest := by
  have window : Takes (g.callResult name distinct args [])
      (.identifier "OVER" :: parenTokens (overTokens items (orderTokens order)))
      (.window name distinct args partition order) rest :=
    takes_callResult_over partitionReads orderReads []
  have within : Text.sameIgnoringCase "OVER" "WITHIN" = false := by decide
  unfold Grammar.callEnd
  cases name == "LISTAGG" with
  | false => exact Takes.bind_none (Takes.pure [] _) window
  | true => exact Takes.bind_none (takes_takeIf_not within) (Takes.bind_none (Takes.pure [] _) window)

/-! ## Tables -/

/-- Whether a table would go on with the token: with its name, an alias or columns. -/
def Token.continuesTable (t : Token) : Bool :=
  t.isKeyword .as || t.name?.isSome || t.isSymbol .dot || t.isSymbol .leftParen

variable {aliasName : Option String} {columns names : List String} {what : String} {s : Source}

theorem Token.not_continuesTable (h : t.continuesTable = false) :
    t.isKeyword .as = false ∧ t.name? = none ∧ t.isSymbol .dot = false ∧
      t.isSymbol .leftParen = false := by
  simp only [continuesTable, Bool.or_eq_false_iff, Option.isSome_eq_false_iff,
    Option.isNone_iff_eq_none] at h
  exact ⟨h.1.1.1, h.1.1.2, h.1.2, h.2⟩

theorem takes_alias (noAs : (ahead rest).isKeyword .as = false) (noName : (ahead rest).name? = none) :
    Takes (Parser.takeAlias? what) (aliasTokens aliasName) aliasName rest := by
  cases aliasName with
  | none =>
    refine Takes.bind_none (takes_takeIf_not noAs) (Takes.bind_peek ?_)
    rw [aliasTokens, List.nil_append, noName]
    exact Takes.pure none rest
  | some name =>
    exact Takes.bind_one (takes_keyword .as) (takes_expectName what name).bind_pure

theorem takes_names (separator : Symbol) (nonempty : names ≠ [])
    (stop : ahead rest ≠ .symbol separator) :
    Takes (Parser.separatedBy separator (Parser.expectName what)) (separated separator (nameTokens names))
      names rest := by
  have list : List.Forall₂ (fun ts name => ∀ r, r = rest ∨ ahead r = .symbol separator →
      Takes (Parser.expectName what) ts name r) (nameTokens names) names := by
    rw [nameTokens, List.forall₂_map_left_iff, List.forall₂_same]
    exact fun name _ r _ => takes_expectName what name
  exact takes_separatedBy (TakesList.of_each list) nonempty stop

theorem takes_columnNames (nonempty : columns ≠ []) :
    Takes Parser.columnNames (parenTokens (commaTokens (nameTokens columns))) columns rest :=
  Takes.inParens (takes_names .comma nonempty (by rintro ⟨⟩))

/-- The columns behind an alias. -/
theorem takes_sourceColumns (named : columns ≠ [] → aliasName.isSome = true)
    (stop : (ahead rest).isSymbol .leftParen = false) :
    Takes (sourceColumns aliasName) (columnsTokens columns) columns rest := by
  cases columns with
  | nil =>
    have empty : columnsTokens [] = [] := rfl
    refine Takes.bind_atSymbol ?_
    rw [empty, List.nil_append, stop, Bool.and_false]
    exact Takes.pure [] rest
  | cons column columns =>
    refine Takes.bind_atSymbol ?_
    rw [named (List.cons_ne_nil _ _)]
    exact takes_columnNames (List.cons_ne_nil _ _)

/-- An alias and the columns behind it. -/
theorem takes_aliasColumns (named : columns ≠ [] → aliasName.isSome = true)
    (stop : (ahead rest).continuesTable = false) {f : Option String → List String → α} :
    Takes (do
      let aliasName ← Parser.takeAlias? what
      return f aliasName (← sourceColumns aliasName))
      (aliasTokens aliasName ++ columnsTokens columns) (f aliasName columns) rest := by
  obtain ⟨noAs, noName, -, noParen⟩ := Token.not_continuesTable stop
  refine Takes.bind ?_ (takes_sourceColumns named noParen).bind_pure
  cases columns with
  | nil => exact takes_alias noAs noName
  | cons column columns => exact takes_alias rfl rfl

theorem takes_named (name : String) (stop : (ahead rest).continuesTable = false) :
    Takes g.sourcePrimary (tableTokens name ++ aliasTokens aliasName) (.named name aliasName) rest := by
  obtain ⟨noAs, noName, noDot, -⟩ := Token.not_continuesTable stop
  have next : ahead (aliasTokens aliasName ++ rest) ≠ .symbol .dot := by
    cases aliasName with
    | none =>
      intro dot
      rw [show ahead rest = _ from dot] at noDot
      cases noDot
    | some name => rintro ⟨⟩
  have table : Takes tableName (tableTokens name) name (aliasTokens aliasName ++ rest) := by
    have joined : Takes tableName _ (".".intercalate (tableParts name)) _ :=
      (takes_names .dot (tableParts_ne_nil name) next).bind_pure
    rwa [intercalate_tableParts] at joined
  have whole : Takes (do
      let name ← tableName
      return Source.named name (← Parser.takeAlias? "table alias"))
      (tableTokens name ++ aliasTokens aliasName) (.named name aliasName) rest :=
    table.bind (takes_alias noAs noName).bind_pure
  refine Takes.bind_peek ?_
  obtain ⟨part, parts, split⟩ := List.exists_cons_of_ne_nil (tableParts_ne_nil name)
  have first : ahead (tableTokens name ++ aliasTokens aliasName ++ rest) = .identifier part := by
    rw [tableTokens, split, nameTokens, List.map_cons, separated_cons]
    rfl
  rw [first]
  exact whole

theorem takes_dual (stop : (ahead rest).continuesTable = false) :
    Takes g.sourcePrimary (.keyword .dual :: aliasTokens aliasName) (.dual aliasName) rest := by
  obtain ⟨noAs, noName, -, -⟩ := Token.not_continuesTable stop
  exact Takes.bind_peek (Takes.bind_one takes_advance (takes_alias noAs noName).bind_pure)

theorem takes_stdin (stop : (ahead rest).continuesTable = false) :
    Takes g.sourcePrimary (.keyword .stdin :: aliasTokens aliasName) (.stdin aliasName) rest := by
  obtain ⟨noAs, noName, -, -⟩ := Token.not_continuesTable stop
  exact Takes.bind_peek (Takes.bind_one takes_advance (takes_alias noAs noName).bind_pure)

/-! ## Sources in parentheses -/

theorem takes_primary_source (h : Takes g.parenthesizedSource ts s rest) :
    Takes g.sourcePrimary (.symbol .leftParen :: ts) s rest :=
  Takes.bind_peek (Takes.bind_one takes_advance h)

/-- The rows of a `VALUES` list. -/
def Grammar.ReadsRows (g : Grammar) : List (List Token) → List (List Expr) → Prop :=
  List.Forall₂ fun ts row =>
    row ≠ [] ∧ ∃ items, ts = parenTokens (commaTokens items) ∧ List.Forall₂ g.Reads items row

theorem takes_values {rows : List (List Expr)} (h : g.ReadsRows items rows) (nonempty : rows ≠ [])
    (named : columns ≠ [] → aliasName.isSome = true) (stop : (ahead rest).continuesTable = false) :
    Takes g.sourcePrimary (parenTokens (.keyword .values :: commaTokens items)
      ++ (aliasTokens aliasName ++ columnsTokens columns)) (.values rows aliasName columns) rest := by
  have list (r : List Token) : Takes g.valueRows (commaTokens items) rows (.symbol .rightParen :: r) := by
    refine takes_separatedBy (TakesList.of_each (h.imp ?_)) nonempty (by rintro ⟨⟩)
    rintro ts row ⟨full, items, rfl, reads⟩ r -
    exact Takes.inParens (takes_expressions reads full rfl (by rintro ⟨⟩))
  have tokens : parenTokens (.keyword .values :: commaTokens items)
      ++ (aliasTokens aliasName ++ columnsTokens columns) =
      .symbol .leftParen :: .keyword .values :: (commaTokens items
        ++ .symbol .rightParen :: (aliasTokens aliasName ++ columnsTokens columns)) := by
    simp [parenTokens]
  rw [tokens]
  refine takes_primary_source (Takes.bind_one (takes_keyword .values) (Takes.bind (list _) ?_))
  exact Takes.bind_one (takes_expectSymbol .rightParen) (takes_aliasColumns named stop)

theorem Token.not_values_of_opensQuery (h : t.opensQuery = true) : t.isKeyword .values = false := by
  cases t with
  | keyword k => cases k <;> first | rfl | cases h
  | _ => rfl

theorem takes_subquerySource (starts : g.Starts) (h : g.ReadsQuery ts q)
    (named : columns ≠ [] → aliasName.isSome = true) (stop : (ahead rest).continuesTable = false) :
    Takes g.sourcePrimary (parenTokens ts ++ (aliasTokens aliasName ++ columnsTokens columns))
      (.subquery q aliasName columns) rest := by
  have query : Takes g.query ts q (.symbol .rightParen
      :: (aliasTokens aliasName ++ columnsTokens columns ++ rest)) := h _ rfl
  have tail : Takes (do
      let q ← g.query
      Parser.expectSymbol .rightParen
      subquerySource q)
      (ts ++ .symbol .rightParen :: (aliasTokens aliasName ++ columnsTokens columns))
      (.subquery q aliasName columns) rest :=
    Takes.bind query (Takes.bind_one (takes_expectSymbol .rightParen) (takes_aliasColumns named stop))
  have start : (ahead (ts ++ .symbol .rightParen :: (aliasTokens aliasName ++ columnsTokens columns)
      ++ rest)).opensQuery = true := by
    rw [List.append_assoc]
    exact starts.query.ahead query
  have tokens : parenTokens ts ++ (aliasTokens aliasName ++ columnsTokens columns) =
      .symbol .leftParen :: (ts
        ++ .symbol .rightParen :: (aliasTokens aliasName ++ columnsTokens columns)) := by
    simp [parenTokens]
  rw [tokens]
  refine takes_primary_source (Takes.bind_none
    (takes_takeIf_not (Token.not_values_of_opensQuery start)) ?_)
  rw [Token.opensQuery] at start
  refine Takes.bind_atQuery (Takes.bind_atSymbol ?_)
  rw [if_pos start]
  exact tail

/-! ## Joins -/

/-- Whether a join may follow in front of the token, whose words come first. -/
def Token.joins : Token → Bool
  | .keyword .cross | .keyword .natural | .keyword .inner | .keyword .left | .keyword .right
  | .keyword .full | .keyword .join => true
  | _ => false

/-- In front of the tokens `rest` a list of joins takes the tokens `ts` as the source so far, and may
go on from there. -/
def Grammar.LeadsSource (g : Grammar) (ts : List Token) (s : Source) (rest : List Token) : Prop :=
  ∀ ls rs, ls.map Lexeme.token = ts → rs.map Lexeme.token = rest → ∃ bound, rs.length ≤ bound ∧
    g.joinedSource (ls ++ rs) = g.joinsFrom bound s rs

theorem Token.not_keyword_of_joins (h : t.joins = false) (word : (Token.keyword k).joins = true) :
    t.isKeyword k = false := by
  rw [← Bool.not_eq_true, Token.isKeyword_iff]
  rintro rfl
  rw [word] at h
  cases h

/-- Behind a join stands no condition of one, and an expression ends there. -/
theorem Token.not_matching (h : t.joins = true ∨ t.closes = true) :
    t.isKeyword .on = false ∧ t.isKeyword .using = false := by
  cases t with
  | keyword k => cases k <;> first | exact ⟨rfl, rfl⟩ | (rcases h with h | h <;> cases h)
  | _ => exact ⟨rfl, rfl⟩

theorem tightness_of_joins (h : (ahead rest).joins = true ∨ (ahead rest).closes = true) :
    tightness rest = 0 := by
  rcases h with h | h
  · rcases rest with _ | ⟨t, rest⟩
    · rfl
    · cases t with
      | keyword k => cases k <;> first | rfl | cases h
      | _ => cases h
  · exact tightness_of_closes h

/-- Whether the kind of a join may have the condition. -/
def suitsJoin (kind : JoinKind) : JoinMatch → Bool
  | .always => kind == .cross || kind == .inner
  | .natural | .on _ => kind != .cross
  | .using names => kind != .cross && !names.isEmpty

/-- The grammar below reads the condition. -/
def Grammar.ReadsMatch (g : Grammar) : JoinMatch → Prop
  | .on e => g.Reads e.tokens e
  | .always | .natural | .using _ => True

variable {left right : Source} {kind : JoinKind} {m : JoinMatch}

theorem Takes.leadsSource (h : Takes g.sourcePrimary ts s rest) : g.LeadsSource ts s rest := by
  intro ls rs tokens following
  have counted : Parser.remaining rs = .ok (rs.length, rs) := rfl
  exact ⟨rs.length, Nat.le_refl _, (run_bind (h ls rs tokens following)).trans (run_bind counted)⟩

theorem Token.not_joining_of_closes (h : t.closes = true) :
    t.joins = false ∧ t.isKeyword .on = false ∧ t.isKeyword .using = false := by
  cases t with
  | keyword k => cases k <;> first | exact ⟨rfl, rfl, rfl⟩ | cases h
  | _ => exact ⟨rfl, rfl, rfl⟩

theorem takes_joinKind_none (stop : (ahead rest).joins = false) :
    Takes takeJoinKind? [] none rest := by
  refine Takes.bind_peek ?_
  rw [List.nil_append]
  split
  case h_6 => exact Takes.pure none rest
  all_goals
    rename_i next
    rw [next] at stop
    cases stop

/-- The joins end where no other one follows. -/
theorem takes_of_leadsSource (h : g.LeadsSource ts s rest) (stop : (ahead rest).joins = false) :
    Takes g.joinedSource ts s rest := by
  intro ls rs tokens following
  obtain ⟨bound, -, lead⟩ := h ls rs tokens following
  have noCross : (ahead rest).isKeyword .cross = false := Token.not_keyword_of_joins stop rfl
  have noNatural : (ahead rest).isKeyword .natural = false := Token.not_keyword_of_joins stop rfl
  have ends : Takes (g.joinsFrom bound s) [] s rest := by
    cases bound with
    | zero => exact Takes.pure s rest
    | succ bound =>
      refine Takes.bind_none (takes_takeIf_not noCross) ?_
      refine Takes.bind_none (takes_takeIf_not noNatural) ?_
      exact Takes.bind_none (takes_joinKind_none stop) (Takes.pure s rest)
  rw [lead]
  exact ends [] rs rfl following

/-- The kind of a join that is not crossed. -/
theorem takes_joinKind (crossed : kind ≠ .cross) :
    Takes takeJoinKind? [.keyword kind.keyword] (some kind) (.keyword .join :: rest) := by
  have outer (kind : JoinKind) (t : Token) : Takes (takeJoinKind?.outer kind) [t] (some kind)
      (.keyword .join :: rest) :=
    Takes.bind_one takes_advance (Takes.bind_none (takes_takeIf_not rfl) (Takes.pure _ _))
  refine Takes.bind_peek ?_
  cases kind with
  | cross => contradiction
  | inner => exact Takes.bind_one takes_advance (Takes.pure _ _)
  | left | right | full => exact outer _ _

/-- The condition of a join whose words do not say it. -/
theorem takes_joinMatch (suits : suitsJoin kind m = true) (crossed : kind ≠ .cross) (other : m ≠ .natural)
    (h : g.ReadsMatch m) (stop : (ahead rest).joins = true ∨ (ahead rest).closes = true) :
    Takes (g.joinMatch kind) m.tokens m rest := by
  have noMatch : (ahead rest).isKeyword .on = false ∧ (ahead rest).isKeyword .using = false :=
    Token.not_matching stop
  match m with
  | .natural => exact absurd rfl other
  | .always =>
    refine Takes.bind_none (takes_takeIf_not noMatch.1) (Takes.bind_none (takes_takeIf_not noMatch.2) ?_)
    have inner : kind = .inner := by
      cases kind <;> first | rfl | contradiction
    rw [inner]
    exact Takes.pure _ rest
  | .on e => exact Takes.bind_one (takes_keyword .on) (h rest (tightness_of_joins stop)).bind_pure
  | .using names =>
    have nonempty : names ≠ [] := by
      rintro rfl
      simp [suitsJoin] at suits
    refine Takes.bind_none (takes_takeIf_not rfl) (Takes.bind_one (takes_keyword .using) ?_)
    exact (takes_columnNames nonempty).bind_pure

/-- A join from its second word on. -/
theorem takes_joinFrom (operand : Takes g.sourcePrimary us right (m.tokens ++ rest))
    (suits : suitsJoin kind m = true) (condition : g.ReadsMatch m)
    (stop : (ahead rest).joins = true ∨ (ahead rest).closes = true) :
    Takes (g.joinFrom kind m.isNatural left) (.keyword .join :: (us ++ m.tokens))
      (.join kind left right m) rest := by
  refine Takes.bind_one (takes_expectKeyword .join) (Takes.bind operand ?_)
  by_cases crossed : kind = .cross
  · subst crossed
    cases m with
    | always => exact Takes.bind_none (Takes.pure _ rest) (Takes.pure _ rest)
    | _ => cases suits
  · rw [if_neg (by simpa using crossed)]
    by_cases natural : m = .natural
    · subst natural
      exact Takes.bind_none (Takes.pure _ rest) (Takes.pure _ rest)
    · have matching := takes_joinMatch suits crossed natural condition stop
      rw [if_neg (by cases m <;> first | exact Bool.false_ne_true | contradiction)]
      exact matching.bind_pure

/-- One join more. -/
theorem leadsSource_join (h : g.LeadsSource ts left (m.leadTokens
      ++ .keyword kind.keyword :: (.keyword .join :: (us ++ m.tokens) ++ rest)))
    (operand : Takes g.sourcePrimary us right (m.tokens ++ rest)) (suits : suitsJoin kind m = true)
    (condition : g.ReadsMatch m) (stop : (ahead rest).joins = true ∨ (ahead rest).closes = true) :
    g.LeadsSource (ts ++ (m.leadTokens ++ .keyword kind.keyword :: (.keyword .join :: (us ++ m.tokens))))
      (.join kind left right m) rest := by
  have joined : Takes (g.joinFrom kind m.isNatural left) (.keyword .join :: (us ++ m.tokens))
      (.join kind left right m) rest := takes_joinFrom operand suits condition stop
  intro ls rs tokens following
  obtain ⟨first, more, rfl, first', split⟩ := List.map_eq_append_iff.1 tokens
  obtain ⟨lead, more, rfl, lead', split⟩ := List.map_eq_append_iff.1 split
  obtain ⟨word, third, rfl, word', third'⟩ := List.map_eq_cons_iff.1 split
  obtain ⟨bound, enough, leads⟩ := h first (lead ++ word :: (third ++ rs)) first'
    (by simp [lead', word', third', following])
  simp only [List.length_append, List.length_cons] at enough
  cases bound with
  | zero => omega
  | succ bound =>
    refine ⟨bound, by omega, ?_⟩
    have after : (third ++ rs).map Lexeme.token = .keyword .join :: (us ++ m.tokens) ++ rest := by
      rw [List.map_append, third', following]
    have tail := joined third rs third' following
    have goesOn : g.joinsFrom (bound + 1) left (lead ++ word :: (third ++ rs))
        = g.joinsFrom bound (.join kind left right m) rs := by
      by_cases crossed : kind = .cross
      · subst crossed
        cases m with
        | always =>
          obtain rfl : lead = [] := List.map_eq_nil_iff.1 lead'
          have cross := takes_keyword .cross [word] (third ++ rs) (congrArg (fun t => [t]) word') after
          exact (run_bind cross).trans (run_bind tail)
        | _ => cases suits
      · have noCross : (ahead (m.leadTokens ++ .keyword kind.keyword
            :: (.keyword .join :: (us ++ m.tokens) ++ rest))).isKeyword .cross = false := by
          cases m <;> cases kind <;> first | rfl | contradiction
        have natural : Takes (Parser.takeKeyword .natural) m.leadTokens m.isNatural
            (.keyword kind.keyword :: (.keyword .join :: (us ++ m.tokens) ++ rest)) := by
          cases m with
          | natural => exact takes_keyword .natural
          | _ => exact takes_takeIf_not (by cases kind <;> rfl)
        have skip := takes_takeIf_not noCross [] (lead ++ word :: (third ++ rs)) rfl
          (by rw [List.map_append, lead', List.map_cons, word', after])
        have words := natural lead (word :: (third ++ rs)) lead' (by rw [List.map_cons, word', after])
        have taken := takes_joinKind crossed [word] (third ++ rs) (by rw [← word']; rfl) after
        exact (run_bind skip).trans ((run_bind words).trans ((run_bind taken).trans (run_bind tail)))
    rw [List.append_assoc, List.append_assoc, List.cons_append, leads]
    exact goesOn

end

end TableQuery.Language
