import TableQuery.Proofs.Syntax.Cuts
import TableQuery.Proofs.Syntax.RoundTrip

/-!
# Texts of queries that are cut

`OFFSET` and `LIMIT` may be put behind the text of any query that has neither, in either order. What
stands in front of them is then read as it is without them.
-/

namespace TableQuery.Language

open Language.Grammar

/-- A query up to the clauses that cut its rows. -/
def Grammar.uncut (g : Grammar) : Parser ((Bool × List InlineDef) × Body × List OrderItem) := do
  let tables ← g.inlineDefs
  let body ← g.body
  return (tables, body, ← g.order)

/-- The clauses that cut the rows of a query. -/
def Grammar.slice (g : Grammar) : Parser (Option Expr × Limit) := do
  let early ← g.offset
  let limit ← g.limit
  let offset ← if early.isSome then pure early else g.offset
  return (offset, limit)

theorem Grammar.fullQuery_eq (g : Grammar) : g.fullQuery = do
    let (tables, body, order) ← g.uncut
    let (offset, limit) ← g.slice
    return .mk tables.1 tables.2 body order offset limit := by
  simp only [Grammar.fullQuery, Grammar.uncut, Grammar.slice, bind_assoc, pure_bind]
  refine bind_congr fun tables => bind_congr fun body => bind_congr fun order => bind_congr fun early =>
    bind_congr fun limit => ?_
  cases early.isSome <;> simp

/-- In front of the end of a text the parser takes all of the lexemes and gives `a`. -/
def TakesWhole {α : Type} (parser : Grammar → Parser α) (ls : List Lexeme) (a : α) : Prop :=
  ∃ p, parser (Grammar.ofDepth (ls.length + 1)) (ls ++ [⟨.ending, p⟩]) = .ok (a, [⟨.ending, p⟩])

/-- The lexemes of `WITH TIES`, if there are to be `ties`. -/
inductive TiesWords : (ties : Bool) → List Lexeme → Prop
  | without : TiesWords false []
  | with (p : Nat) {word : Lexeme} (named : word.token.isWord "TIES" = true) :
    TiesWords true [⟨.keyword .with, p⟩, word]

/-- The lexemes of an offset `os` and a limit `ks`, with or without ties, in either order. -/
inductive SliceClauses (os ks : List Lexeme) (ties : Bool) : List Lexeme → Prop
  | offsetFirst (p p' : Nat) {words : List Lexeme} (h : TiesWords ties words) :
    SliceClauses os ks ties (⟨.keyword .offset, p⟩ :: os ++ (⟨.keyword .limit, p'⟩ :: ks ++ words))
  | limitFirst (p p' : Nat) {words : List Lexeme} (h : TiesWords ties words) :
    SliceClauses os ks ties (⟨.keyword .limit, p'⟩ :: ks ++ words ++ (⟨.keyword .offset, p⟩ :: os))

section

variable {g g' : Grammar} {ls ks words rest : List Lexeme} {e : Expr} {ties : Bool} {depth p : Nat}

theorem Grammar.Steadies.uncut (h : g.Steadies g') : Steady 1 0 g.uncut g'.uncut :=
  h.inlineDefs.bind fun _ => h.body.bind fun _ => h.order.bind fun _ => .pure _

/-! ## Parts -/

theorem Cut.cons (l : Lexeme) (h : l.token.cuts = true) (ls : List Lexeme) : Cut (l :: ls) := h

theorem TakesWhole.takes (h : TakesWhole Grammar.expression ls e) (deep : ls.length < depth)
    (cut : Cut rest) : (ofDepth depth).expression (ls ++ rest) = .ok (e, rest) := by
  obtain ⟨p, run⟩ := h
  exact (steadies_ofDepth deep).expression.whole (Cut.cons _ rfl _) cut (Nat.zero_le _) run

theorem afterKeyword_nothing {α : Type} {k : Keyword} {item : Parser α}
    (run : Parser.afterKeyword? k item ls = .ok (none, rest)) : rest = ls := by
  obtain ⟨took, mid, first, second⟩ := bind_eq_ok.1 run
  obtain ⟨-, rfl⟩ := takeIf_eq_ok.1 first
  cases took with
  | true =>
    obtain ⟨_, _, -, last⟩ := bind_eq_ok.1 second
    cases pure_eq_ok.1 last
    contradiction
  | false => exact (pure_eq_ok.1 second).2.symm

theorem offset_nothing (run : g.offset ls = .ok (none, rest)) : rest = ls :=
  afterKeyword_nothing run

theorem limit_nothing (run : g.limit ls = .ok (.all, rest)) : rest = ls := by
  obtain ⟨took, mid, first, second⟩ := bind_eq_ok.1 run
  obtain ⟨-, rfl⟩ := takeIf_eq_ok.1 first
  cases took with
  | true =>
    obtain ⟨_, _, -, second⟩ := bind_eq_ok.1 second
    obtain ⟨_, _, -, second⟩ := bind_eq_ok.1 second
    obtain ⟨_, _, -, last⟩ := bind_eq_ok.1 second
    cases (pure_eq_ok.1 last).1
  | false => exact (pure_eq_ok.1 second).2.symm

theorem slice_nothing (run : g.slice ls = .ok ((none, .all), rest)) : rest = ls := by
  obtain ⟨early, mid, first, run⟩ := bind_eq_ok.1 run
  obtain ⟨limit, mid', second, run⟩ := bind_eq_ok.1 run
  cases early with
  | some e =>
    obtain ⟨_, _, kept, last⟩ := bind_eq_ok.1 run
    obtain ⟨rfl, -⟩ := pure_eq_ok.1 kept
    cases (pure_eq_ok.1 last).1
  | none =>
    obtain ⟨offset, mid'', third, last⟩ := bind_eq_ok.1 run
    obtain ⟨same, rfl⟩ := pure_eq_ok.1 last
    cases same
    rw [offset_nothing third, limit_nothing second, offset_nothing first]

theorem takeWord_nothing {word : String} (cut : Cut ls) :
    Parser.takeWord word ls = .ok (false, ls) :=
  (takeIf_eq _ ls).trans (by rw [Token.not_word_of_cuts cut]; rfl)

theorem TiesWords.cut (h : TiesWords ties words) (cut : Cut rest) : Cut (words ++ rest) := by
  cases h with
  | without => exact cut
  | «with» => exact rfl

theorem TiesWords.takes (h : TiesWords ties words)
    (noWith : (ahead (rest.map Lexeme.token)).isKeyword .with = false) :
    takeTies (words ++ rest) = .ok (ties, rest) := by
  rw [takeTies_eq]
  cases h with
  | without => rw [List.nil_append, noWith]; rfl
  | «with» p named => exact congrArg Except.ok (if_pos named)

theorem offset_none (h : (ahead (ls.map Lexeme.token)).isKeyword .offset = false) :
    g.offset ls = .ok (none, ls) := by
  refine (run_bind (takeIf_eq _ ls)).trans ?_
  rw [h]
  rfl

theorem offset_takes (h : TakesWhole Grammar.expression ls e) (deep : ls.length < depth)
    (cut : Cut rest) :
    (ofDepth depth).offset (⟨.keyword .offset, p⟩ :: ls ++ rest) = .ok (some e, rest) := by
  have inner : (do
      let e ← (ofDepth depth).expression
      if !(← Parser.takeWord "ROW") then
        let _ ← Parser.takeWord "ROWS"
      return e) (ls ++ rest) = .ok (e, rest) := by
    rw [run_bind (h.takes deep cut), run_bind (takeWord_nothing cut)]
    exact run_bind (takeWord_nothing cut)
  exact run_bind (takeIf_eq _ _) |>.trans (run_bind inner)

theorem limit_takes (h : TakesWhole Grammar.expression ls e) (deep : ls.length < depth)
    (withTies : TiesWords ties words) (cut : Cut rest)
    (noWith : (ahead (rest.map Lexeme.token)).isKeyword .with = false) :
    (ofDepth depth).limit (⟨.keyword .limit, p⟩ :: ls ++ words ++ rest)
      = .ok (.rows e false ties, rest) := by
  have cut' := withTies.cut cut
  refine (run_bind (takeIf_eq _ _)).trans ?_
  rw [List.append_assoc]
  refine (run_bind (h.takes deep cut')).trans ?_
  refine (run_bind (takeWord_nothing cut')).trans ?_
  exact run_bind (withTies.takes noWith)

/-! ## Queries -/

variable {qs os cs : List Lexeme} {recursive : Bool} {tables : List InlineDef} {body : Body}
  {order : List OrderItem} {offset limit : Expr}

/-- A query without the clauses that cut its rows is all in front of them. -/
theorem TakesWhole.uncut
    (h : TakesWhole Grammar.query qs (.mk recursive tables body order none .all))
    (deep : qs.length ≤ depth) (cut : Cut rest) :
    (ofDepth depth).uncut (qs ++ rest) = .ok (((recursive, tables), body, order), rest) := by
  obtain ⟨p, run⟩ := h
  have nonempty : 1 ≤ qs.length := by
    cases qs with
    | nil => exact Bool.noConfusion (starts_fullQuery _ _ _ _ run)
    | cons => exact Nat.le_add_left 1 _
  have whole : (ofDepth qs.length).uncut (qs ++ [⟨.ending, p⟩])
      = .ok (((recursive, tables), body, order), [⟨.ending, p⟩]) := by
    change (ofDepth qs.length).fullQuery _ = _ at run
    rw [Grammar.fullQuery_eq] at run
    obtain ⟨⟨tables', body', order'⟩, mid, first, run⟩ := bind_eq_ok.1 run
    obtain ⟨⟨offset, limit⟩, last, second, run⟩ := bind_eq_ok.1 run
    obtain ⟨same, rfl⟩ := pure_eq_ok.1 run
    cases same
    rwa [← slice_nothing second] at first
  exact (steadies_ofDepth deep).uncut.whole (Cut.cons _ rfl _) cut nonempty whole

theorem SliceClauses.cut (h : SliceClauses os ks ties cs) : Cut (cs ++ rest) := by
  cases h <;> rfl

theorem SliceClauses.length_lt (h : SliceClauses os ks ties cs) :
    os.length < cs.length ∧ ks.length < cs.length := by
  cases h <;> simp only [List.length_append, List.length_cons] <;> omega

/-- An offset and a limit at the end of a text, in either order. -/
theorem SliceClauses.takes (h : SliceClauses os ks ties cs) (deep : cs.length ≤ depth)
    (offsetTaken : TakesWhole Grammar.expression os offset)
    (limitTaken : TakesWhole Grammar.expression ks limit) :
    (ofDepth depth).slice (cs ++ [⟨.ending, p⟩])
      = .ok ((some offset, .rows limit false ties), [⟨.ending, p⟩]) := by
  obtain ⟨deep₁, deep₂⟩ := h.length_lt
  cases h with
  | offsetFirst q q' withTies =>
    rw [List.append_assoc]
    refine (run_bind (offset_takes offsetTaken (by omega) (Cut.cons _ rfl _))).trans ?_
    refine (run_bind (limit_takes limitTaken (by omega) withTies (Cut.cons _ rfl _) rfl)).trans ?_
    rfl
  | limitFirst q q' withTies =>
    rw [List.append_assoc]
    refine (run_bind (offset_none rfl)).trans ?_
    refine (run_bind (limit_takes limitTaken (by omega) withTies (Cut.cons _ rfl _) rfl)).trans ?_
    exact run_bind (offset_takes offsetTaken (by omega) (Cut.cons _ rfl _))

/-- The text of a query that is not cut, with clauses that cut it behind. -/
theorem parseQuery_of_slice {text : String} {offset : Option Expr} {limit : Limit}
    (query : TakesWhole Grammar.query qs (.mk recursive tables body order none .all))
    (cut : Cut (cs ++ [⟨.ending, p⟩]))
    (clauses : (ofDepth (qs ++ cs).length).slice (cs ++ [⟨.ending, p⟩])
      = .ok ((offset, limit), [⟨.ending, p⟩]))
    (lexed : lexemes text = .ok (qs ++ cs ++ [⟨.ending, p⟩])) :
    parseQuery text = .ok (.mk recursive tables body order offset limit) := by
  refine parseWith_eq_ok.2 ⟨_, [], lexed, ?_⟩
  have deep : qs.length ≤ (qs ++ cs).length := by
    rw [List.length_append]
    exact Nat.le_add_right _ _
  have read : (ofDepth (qs ++ cs).length).fullQuery (qs ++ (cs ++ [⟨.ending, p⟩]))
      = .ok (.mk recursive tables body order offset limit, [⟨.ending, p⟩]) := by
    rw [Grammar.fullQuery_eq, run_bind (query.uncut deep cut)]
    exact run_bind clauses
  rw [List.length_append, List.append_assoc]
  exact run_bind read

theorem parseQuery_uncut {text : String}
    (query : TakesWhole Grammar.query qs (.mk recursive tables body order none .all))
    (lexed : lexemes text = .ok (qs ++ [⟨.ending, p⟩])) :
    parseQuery text = .ok (.mk recursive tables body order none .all) := by
  rw [← List.append_nil qs] at lexed
  refine parseQuery_of_slice query ?_ ?_ lexed <;> rfl

/-- An offset and a limit are read behind the text of a query that has none, in either order. -/
theorem parseQuery_sliced {text : String}
    (query : TakesWhole Grammar.query qs (.mk recursive tables body order none .all))
    (offsetTaken : TakesWhole Grammar.expression os offset)
    (limitTaken : TakesWhole Grammar.expression ks limit) (clauses : SliceClauses os ks ties cs)
    (lexed : lexemes text = .ok (qs ++ cs ++ [⟨.ending, p⟩])) :
    parseQuery text = .ok (.mk recursive tables body order (some offset) (.rows limit false ties)) := by
  refine parseQuery_of_slice query clauses.cut (clauses.takes ?_ offsetTaken limitTaken) lexed
  rw [List.length_append]
  exact Nat.le_add_left _ _

end

end TableQuery.Language
