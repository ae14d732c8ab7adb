import TableQuery.Proofs.Syntax.Queries

/-!
# What parsers give

A result of a parser is made of results of the parsers that it runs. What a rule of the grammar gives
therefore has a certain form, and its parts are given by the grammar below.
-/

namespace TableQuery.Language

open Language.Grammar

/-- The parser gives the result on some tokens. -/
def Gives {α : Type} (p : Parser α) (a : α) : Prop :=
  ∃ ls rest, p ls = .ok (a, rest)

section

variable {α β : Type} {p q : Parser α} {f : α → Parser β} {g : α → β} {a a' : α} {b : β} {xs : List α}

theorem Gives.of_bind (h : Gives (p >>= f) b) : ∃ a, Gives p a ∧ Gives (f a) b := by
  obtain ⟨ls, rest, run⟩ := h
  obtain ⟨a, mid, first, second⟩ := bind_eq_ok.1 run
  exact ⟨a, ⟨ls, mid, first⟩, mid, rest, second⟩

theorem Gives.of_pure (h : Gives (pure a) a') : a' = a := by
  obtain ⟨ls, rest, run⟩ := h
  exact (pure_eq_ok.1 run).1.symm

theorem Gives.of_map (h : Gives (g <$> p) b) : ∃ a, Gives p a ∧ b = g a := by
  rw [← bind_pure_comp] at h
  obtain ⟨a, given, result⟩ := h.of_bind
  exact ⟨a, given, result.of_pure⟩

theorem Gives.of_ite {c : Prop} [Decidable c] (h : Gives (if c then p else q) a) :
    c ∧ Gives p a ∨ ¬c ∧ Gives q a := by
  split at h
  · exact .inl ⟨‹c›, h⟩
  · exact .inr ⟨‹¬c›, h⟩

theorem not_gives_unexpected {expected : String} : ¬Gives (Parser.unexpected expected) a :=
  fun ⟨_, _, run⟩ => unexpected_ne_ok run

/-! ## Combinators -/

theorem Gives.of_inParens (h : Gives (Parser.inParens p) a) : Gives p a := by
  obtain ⟨_, -, h⟩ := h.of_bind
  obtain ⟨x, given, h⟩ := h.of_bind
  obtain ⟨_, -, h⟩ := h.of_bind
  rwa [h.of_pure]

theorem Gives.of_afterKeyword {k : Keyword} {x : Option α} (h : Gives (Parser.afterKeyword? k p) x) :
    ∀ a ∈ x, Gives p a := by
  obtain ⟨_, -, h⟩ := h.of_bind
  rcases h.of_ite with ⟨-, h⟩ | ⟨-, h⟩
  · obtain ⟨a, given, h⟩ := h.of_bind
    rintro a' member
    rw [h.of_pure] at member
    cases member
    exact given
  · rintro a member
    rw [h.of_pure] at member
    cases member

theorem Gives.of_itemsAfter {separator : Symbol} {bound : Nat}
    (h : Gives (Parser.itemsAfter separator p bound) xs) : ∀ x ∈ xs, Gives p x := by
  induction bound generalizing xs with
  | zero =>
    rw [h.of_pure]
    simp
  | succ bound ih =>
    obtain ⟨_, -, h⟩ := h.of_bind
    rcases h.of_ite with ⟨-, h⟩ | ⟨-, h⟩
    · obtain ⟨x, first, h⟩ := h.of_bind
      obtain ⟨xs, more, h⟩ := h.of_bind
      rw [h.of_pure, List.forall_mem_cons]
      exact ⟨first, ih more⟩
    · rw [h.of_pure]
      simp

theorem Gives.of_separatedBy {separator : Symbol} (h : Gives (Parser.separatedBy separator p) xs) :
    xs ≠ [] ∧ ∀ x ∈ xs, Gives p x := by
  obtain ⟨x, first, h⟩ := h.of_bind
  obtain ⟨n, -, h⟩ := h.of_bind
  obtain ⟨xs, more, h⟩ := h.of_bind
  rw [h.of_pure, List.forall_mem_cons]
  exact ⟨List.cons_ne_nil _ _, first, more.of_itemsAfter⟩

theorem Gives.of_columnNames {names : List String} (h : Gives Parser.columnNames names) :
    names ≠ [] :=
  h.of_inParens.of_separatedBy.1

end

/-! ## Expressions -/

section

variable {g : Grammar} {e : Expr} {es : List Expr}

/-- The keys of the list are given by the grammar below. -/
def GivesOrder (g : Grammar) (items : List OrderItem) : Prop :=
  ∀ key direction nulls, .mk key direction nulls ∈ items → Gives g.expression key

theorem givesOrder_nil : GivesOrder g [] := by
  intro _ _ _ member
  cases member

theorem Gives.of_order {items : List OrderItem} (h : Gives g.order items) : GivesOrder g items := by
  obtain ⟨_, -, h⟩ := h.of_bind
  rcases h.of_ite with ⟨-, h⟩ | ⟨-, h⟩
  · obtain ⟨_, -, h⟩ := h.of_bind
    intro key direction nulls member
    have item := h.of_separatedBy.2 _ member
    obtain ⟨key', given, item⟩ := item.of_bind
    obtain ⟨_, -, item⟩ := item.of_bind
    obtain ⟨_, -, item⟩ := item.of_bind
    obtain ⟨rfl, -, -⟩ := OrderItem.mk.inj item.of_pure
    exact given
  · rw [h.of_pure]
    exact givesOrder_nil

theorem Gives.of_columnFrom {first : String} (h : Gives (columnFrom first) e) :
    e = .tableColumns first ∨ (∃ name, e = .column (some first) name) ∨ e = .column none first := by
  obtain ⟨_, -, h⟩ := h.of_bind
  rcases h.of_ite with ⟨-, h⟩ | ⟨-, h⟩
  · obtain ⟨_, -, h⟩ := h.of_bind
    rcases h.of_ite with ⟨-, h⟩ | ⟨-, h⟩
    · exact .inl h.of_pure
    · obtain ⟨name, -, h⟩ := h.of_bind
      exact .inr (.inl ⟨name, h.of_pure⟩)
  · exact .inr (.inr h.of_pure)

theorem Gives.of_branches {bound : Nat} {branches : List Branch} (h : Gives (g.branches bound) branches) :
    ∀ condition result, .mk condition result ∈ branches →
      Gives g.expression condition ∧ Gives g.expression result := by
  induction bound generalizing branches with
  | zero =>
    rw [h.of_pure]
    simp
  | succ bound ih =>
    obtain ⟨_, -, h⟩ := h.of_bind
    rcases h.of_ite with ⟨-, h⟩ | ⟨-, h⟩
    · obtain ⟨condition, test, h⟩ := h.of_bind
      obtain ⟨_, -, h⟩ := h.of_bind
      obtain ⟨result, outcome, h⟩ := h.of_bind
      obtain ⟨more, rest, h⟩ := h.of_bind
      rw [h.of_pure]
      intro c r member
      rcases List.mem_cons.1 member with same | member
      · obtain ⟨rfl, rfl⟩ := Branch.mk.inj same
        exact ⟨test, outcome⟩
      · exact ih rest c r member
    · rw [h.of_pure]
      simp

/-- A case distinction has a branch, and its parts are given by the grammar below. -/
structure GivesCase (g : Grammar) (operand : Option Expr) (branches : List Branch)
    (otherwise : Option Expr) : Prop where
  operand : ∀ e ∈ operand, Gives g.expression e
  nonempty : branches ≠ []
  branches : ∀ condition result, .mk condition result ∈ branches →
    Gives g.expression condition ∧ Gives g.expression result
  otherwise : ∀ e ∈ otherwise, Gives g.expression e

theorem Gives.of_caseFrom (h : Gives g.caseFrom e) :
    ∃ operand branches otherwise, e = .case operand branches otherwise ∧
      GivesCase g operand branches otherwise := by
  have close {operand : Option Expr} (first : ∀ e ∈ operand, Gives g.expression e)
      (h : Gives (g.caseEnd operand) e) : ∃ operand branches otherwise,
        e = .case operand branches otherwise ∧ GivesCase g operand branches otherwise := by
    obtain ⟨_, -, h⟩ := h.of_bind
    obtain ⟨branches, given, h⟩ := h.of_bind
    rcases h.of_ite with ⟨-, h⟩ | ⟨nonempty, h⟩
    · obtain ⟨_, impossible, -⟩ := h.of_bind
      exact absurd impossible not_gives_unexpected
    · obtain ⟨otherwise, last, h⟩ := h.of_bind
      obtain ⟨_, -, h⟩ := h.of_bind
      refine ⟨operand, branches, otherwise, h.of_pure, first, ?_, given.of_branches, last.of_afterKeyword⟩
      simpa using nonempty
  obtain ⟨_, -, h⟩ := h.of_bind
  rcases h.of_ite with ⟨-, h⟩ | ⟨-, h⟩
  · obtain ⟨operand, none', h⟩ := h.of_bind
    refine close ?_ h
    rw [none'.of_pure]
    rintro e ⟨⟩
  · obtain ⟨operand, some', h⟩ := h.of_bind
    obtain ⟨first, given, rfl⟩ := some'.of_map
    refine close ?_ h
    rintro e ⟨⟩
    exact given

/-! ## Calls -/

/-- An argument is given by the grammar below, or is a separator of texts. -/
def GivesArgument (g : Grammar) (e : Expr) : Prop :=
  Gives g.expression e ∨ ∃ s, e = .literal (.text s)

/-- The forms of a call: a window, or what its name says it is. -/
inductive CallForm (g : Grammar) (name : String) : Expr → Prop
  | window (distinct : Bool) {args partition : List Expr} {order : List OrderItem} :
    (∀ e ∈ args, GivesArgument g e) → (∀ e ∈ partition, Gives g.expression e) → GivesOrder g order →
    CallForm g name (.window name distinct args partition order)
  | plain (distinct : Bool) {args : List Expr} {order : List OrderItem} :
    (∀ e ∈ args, GivesArgument g e) → GivesOrder g order →
    CallForm g name (callOf name distinct args order)

variable {name : String} {distinct : Bool} {args : List Expr} {order : List OrderItem}

theorem Gives.of_callResult (argsGiven : ∀ e ∈ args, GivesArgument g e) (orderGiven : GivesOrder g order)
    (h : Gives (g.callResult name distinct args order) e) : CallForm g name e := by
  obtain ⟨_, -, h⟩ := h.of_bind
  rcases h.of_ite with ⟨-, h⟩ | ⟨-, h⟩
  · obtain ⟨_, -, h⟩ := h.of_inParens.of_bind
    rcases h.of_ite with ⟨-, h⟩ | ⟨-, h⟩
    · obtain ⟨_, -, h⟩ := h.of_bind
      obtain ⟨partition, parts, h⟩ := h.of_bind
      obtain ⟨keys, given, h⟩ := h.of_bind
      rw [h.of_pure]
      exact .window distinct argsGiven parts.of_separatedBy.2 given.of_order
    · obtain ⟨partition, none', h⟩ := h.of_bind
      obtain ⟨keys, given, h⟩ := h.of_bind
      rw [h.of_pure, none'.of_pure]
      exact .window distinct argsGiven (by simp) given.of_order
  · have plain : CallForm g name (callOf name distinct args order) := .plain distinct argsGiven orderGiven
    unfold callOf at plain
    rcases h.of_ite with ⟨joining, h⟩ | ⟨joining, h⟩
    · rw [if_pos joining] at plain
      rwa [h.of_pure]
    · rw [if_neg joining] at plain
      rcases h.of_ite with ⟨aggregate, h⟩ | ⟨aggregate, h⟩
      · rw [if_pos aggregate] at plain
        rwa [h.of_pure]
      · rw [if_neg aggregate] at plain
        rwa [h.of_pure]

theorem Gives.of_callEnd (argsGiven : ∀ e ∈ args, GivesArgument g e) (orderGiven : GivesOrder g order)
    (h : Gives (g.callEnd name distinct args order) e) : CallForm g name e := by
  rcases Gives.of_ite h with ⟨-, h⟩ | ⟨-, h⟩
  · obtain ⟨_, -, h⟩ := h.of_bind
    rcases h.of_ite with ⟨-, h⟩ | ⟨-, h⟩
    · obtain ⟨_, -, h⟩ := h.of_bind
      obtain ⟨keys, given, h⟩ := h.of_bind
      exact Gives.of_callResult argsGiven given.of_inParens.of_order h
    · obtain ⟨keys, same, h⟩ := h.of_bind
      rw [same.of_pure] at h
      exact Gives.of_callResult argsGiven orderGiven h
  · obtain ⟨keys, same, h⟩ := h.of_bind
    rw [same.of_pure] at h
    exact Gives.of_callResult argsGiven orderGiven h

theorem Gives.of_concatOptions {options : List OrderItem × List Expr}
    (h : Gives g.concatOptions options) :
    GivesOrder g options.1 ∧ ∀ e ∈ options.2, ∃ s, e = .literal (.text s) := by
  obtain ⟨keys, given, h⟩ := h.of_bind
  obtain ⟨_, -, h⟩ := h.of_bind
  rcases h.of_ite with ⟨-, h⟩ | ⟨-, h⟩
  · obtain ⟨t, -, h⟩ := h.of_bind
    split at h
    · obtain ⟨_, -, h⟩ := h.of_bind
      rw [h.of_pure]
      exact ⟨given.of_order, by simp⟩
    · exact absurd h not_gives_unexpected
  · rw [h.of_pure]
    exact ⟨given.of_order, by simp⟩

theorem Gives.of_callFrom {word : String} (h : Gives (g.callFrom word) e) :
    CallForm g (Text.upper word) e := by
  have close {distinct : Bool} {args : List Expr} (argsGiven : ∀ e ∈ args, Gives g.expression e)
      (h : Gives (g.callClose (Text.upper word) distinct args) e) : CallForm g (Text.upper word) e := by
    have finish {order : List OrderItem} {separator : List Expr} (orderGiven : GivesOrder g order)
        (texts : ∀ e ∈ separator, ∃ s, e = .literal (.text s)) (h : Gives (do
          Parser.expectSymbol .rightParen
          g.callEnd (Text.upper word) distinct (args ++ separator) order) e) :
        CallForm g (Text.upper word) e := by
      obtain ⟨_, -, h⟩ := h.of_bind
      refine Gives.of_callEnd (fun e member => ?_) orderGiven h
      rcases List.mem_append.1 member with member | member
      · exact .inl (argsGiven e member)
      · exact .inr (texts e member)
    rcases Gives.of_ite h with ⟨-, h⟩ | ⟨-, h⟩
    · obtain ⟨⟨order, separator⟩, given, h⟩ := h.of_bind
      exact finish given.of_concatOptions.1 given.of_concatOptions.2 h
    · obtain ⟨⟨order, separator⟩, none', h⟩ := h.of_bind
      obtain ⟨rfl, rfl⟩ := Prod.mk.inj none'.of_pure
      exact finish givesOrder_nil (by simp) h
  obtain ⟨_, -, h⟩ := Gives.of_bind h
  obtain ⟨distinct, -, h⟩ := h.of_bind
  obtain ⟨_, -, h⟩ := h.of_bind
  rcases h.of_ite with ⟨-, h⟩ | ⟨-, h⟩
  · obtain ⟨args, none', h⟩ := h.of_bind
    rw [none'.of_pure] at h
    exact close (by simp) h
  · obtain ⟨args, given, h⟩ := h.of_bind
    exact close given.of_separatedBy.2 h

/-! ## Parentheses -/

/-- The query is given by the grammar below, on tokens that start like one without parentheses. -/
def GivesQuery (g : Grammar) (q : Query) : Prop :=
  ∃ ls rest, g.query ls = .ok (q, rest) ∧ (ahead (ls.map Lexeme.token)).startsQuery = true

theorem GivesQuery.gives {q : Query} (h : GivesQuery g q) : Gives g.query q := by
  obtain ⟨ls, rest, run, -⟩ := h
  exact ⟨ls, rest, run⟩

/-- A query where one starts, and something else otherwise. -/
theorem Gives.of_atQuery {f : Query → Parser Expr} {p : Parser Expr} (h : Gives (do
      if ← Parser.atQuery then f (← g.query) else p) e) :
    (∃ q, GivesQuery g q ∧ Gives (f q) e) ∨ Gives p e := by
  obtain ⟨ls, rest, run⟩ := h
  obtain ⟨found, mid, first, run⟩ := bind_eq_ok.1 run
  have seen : Parser.atQuery ls = .ok ((ahead (ls.map Lexeme.token)).startsQuery, ls) := by
    cases ls <;> rfl
  rw [seen] at first
  cases first
  split at run
  · obtain ⟨q, mid, query, run⟩ := bind_eq_ok.1 run
    exact .inl ⟨q, ⟨ls, mid, query, ‹_›⟩, mid, rest, run⟩
  · exact .inr ⟨ls, rest, run⟩

theorem Gives.of_valueSource (h : Gives g.valueSource e) :
    (∃ q, GivesQuery g q ∧ e = .subquery q) ∨
      ∃ es, es ≠ [] ∧ (∀ e ∈ es, Gives g.expression e) ∧ e = .valueList es := by
  rcases h.of_inParens.of_atQuery with ⟨q, given, h⟩ | h
  · exact .inl ⟨q, given, h.of_pure⟩
  · obtain ⟨es, given, h⟩ := h.of_bind
    exact .inr ⟨es, given.of_separatedBy.1, given.of_separatedBy.2, h.of_pure⟩

theorem Gives.of_parenthesized (h : Gives g.parenthesized e) :
    (∃ q, GivesQuery g q ∧ e = .subquery q) ∨ (∃ inner, Gives g.expression inner ∧ e = .parens inner) ∨
      ∃ es, 2 ≤ es.length ∧ (∀ e ∈ es, Gives g.expression e) ∧ e = .rowValue es := by
  rcases h.of_inParens.of_atQuery with ⟨q, given, h⟩ | h
  · exact .inl ⟨q, given, h.of_pure⟩
  · obtain ⟨es, list, h⟩ := h.of_bind
    obtain ⟨nonempty, given⟩ := list.of_separatedBy
    match es with
    | [] => exact absurd rfl nonempty
    | [inner] => exact .inr (.inl ⟨inner, given inner List.mem_cons_self, h.of_pure⟩)
    | e' :: e'' :: es => exact .inr (.inr ⟨_, by simp, given, h.of_pure⟩)

end

/-! ## Chains -/

/-- Operands, combined from the left by operators. -/
inductive Chained {α : Type} (operand : Parser α) (operator? : Parser (Option (α → α → α))) : α → Prop
  | operand {a : α} : Gives operand a → Chained operand operator? a
  | combine {a b : α} {f : α → α → α} : Chained operand operator? a → Gives operator? (some f) →
    Gives operand b → Chained operand operator? (f a b)

theorem Gives.of_chain {α : Type} {operand : Parser α} {operator? : Parser (Option (α → α → α))} {a : α}
    (h : Gives (Parser.chain operand operator?) a) : Chained operand operator? a := by
  have grow {bound : Nat} {left : α} (soFar : Chained operand operator? left)
      (h : Gives (Parser.chainFrom operand operator? bound left) a) : Chained operand operator? a := by
    induction bound generalizing left with
    | zero => rwa [h.of_pure]
    | succ bound ih =>
      obtain ⟨f?, operator, h⟩ := h.of_bind
      cases f? with
      | none => rwa [Gives.of_pure h]
      | some f =>
        obtain ⟨right, given, h⟩ := Gives.of_bind h
        exact ih (soFar.combine operator given) h
  obtain ⟨left, first, h⟩ := h.of_bind
  obtain ⟨_, -, h⟩ := h.of_bind
  exact grow (.operand first) h

/-! ## Sources -/

section

variable {g : Grammar} {s : Source}

/-- The forms of a source that is no list of joins, or stands in parentheses. -/
inductive SourceForm (g : Grammar) : Source → Prop
  | named (name : String) (aliasName : Option String) : SourceForm g (.named name aliasName)
  | dual (aliasName : Option String) : SourceForm g (.dual aliasName)
  | stdin (aliasName : Option String) : SourceForm g (.stdin aliasName)
  | values {rows : List (List Expr)} {aliasName : Option String} {columns : List String} :
    rows ≠ [] → (∀ row ∈ rows, row ≠ [] ∧ ∀ e ∈ row, Gives g.expression e) →
    (columns ≠ [] → aliasName.isSome = true) → SourceForm g (.values rows aliasName columns)
  | subquery {q : Query} {aliasName : Option String} {columns : List String} : Gives g.query q →
    (columns ≠ [] → aliasName.isSome = true) → SourceForm g (.subquery q aliasName columns)
  | nested {s : Source} : Gives g.source s → SourceForm g s

theorem Gives.of_sourceColumns {aliasName : Option String} {columns : List String}
    (h : Gives (sourceColumns aliasName) columns) : columns ≠ [] → aliasName.isSome = true := by
  obtain ⟨_, -, h⟩ := h.of_bind
  rcases h.of_ite with ⟨named, -⟩ | ⟨-, h⟩
  · exact fun _ => (Bool.and_eq_true_iff.1 named).1
  · rw [h.of_pure]
    simp

theorem Gives.of_valueRows {rows : List (List Expr)} (h : Gives g.valueRows rows) :
    rows ≠ [] ∧ ∀ row ∈ rows, row ≠ [] ∧ ∀ e ∈ row, Gives g.expression e := by
  refine ⟨h.of_separatedBy.1, fun row member => ?_⟩
  exact (h.of_separatedBy.2 row member).of_inParens.of_separatedBy

theorem Gives.of_valuesSource {rows : List (List Expr)} (given : Gives g.valueRows rows)
    (h : Gives (valuesSource rows) s) : SourceForm g s := by
  obtain ⟨aliasName, -, h⟩ := h.of_bind
  obtain ⟨columns, named, h⟩ := h.of_bind
  rw [h.of_pure]
  exact .values given.of_valueRows.1 given.of_valueRows.2 named.of_sourceColumns

theorem Gives.of_parenthesizedSource (h : Gives g.parenthesizedSource s) : SourceForm g s := by
  obtain ⟨_, -, h⟩ := h.of_bind
  rcases h.of_ite with ⟨-, h⟩ | ⟨-, h⟩
  · obtain ⟨rows, given, h⟩ := h.of_bind
    obtain ⟨_, -, h⟩ := h.of_bind
    exact given.of_valuesSource h
  · obtain ⟨_, -, h⟩ := h.of_bind
    obtain ⟨_, -, h⟩ := h.of_bind
    rcases h.of_ite with ⟨-, h⟩ | ⟨-, h⟩
    · obtain ⟨q, given, h⟩ := h.of_bind
      obtain ⟨_, -, h⟩ := h.of_bind
      obtain ⟨aliasName, -, h⟩ := Gives.of_bind h
      obtain ⟨columns, named, h⟩ := h.of_bind
      rw [h.of_pure]
      exact .subquery given named.of_sourceColumns
    · obtain ⟨inner, given, h⟩ := h.of_bind
      obtain ⟨_, -, h⟩ := h.of_bind
      rw [h.of_pure]
      exact .nested given

theorem Gives.of_sourcePrimary (h : Gives g.sourcePrimary s) : SourceForm g s := by
  obtain ⟨t, -, h⟩ := h.of_bind
  split at h
  · obtain ⟨_, -, h⟩ := h.of_bind
    obtain ⟨aliasName, -, h⟩ := h.of_bind
    rw [h.of_pure]
    exact .dual aliasName
  · obtain ⟨_, -, h⟩ := h.of_bind
    obtain ⟨aliasName, -, h⟩ := h.of_bind
    rw [h.of_pure]
    exact .stdin aliasName
  · obtain ⟨_, -, h⟩ := h.of_bind
    obtain ⟨rows, given, h⟩ := h.of_bind
    exact given.of_valuesSource h
  · obtain ⟨_, -, h⟩ := h.of_bind
    exact h.of_parenthesizedSource
  · obtain ⟨name, -, h⟩ := h.of_bind
    obtain ⟨aliasName, -, h⟩ := h.of_bind
    rw [h.of_pure]
    exact .named name aliasName
  · obtain ⟨name, -, h⟩ := h.of_bind
    obtain ⟨aliasName, -, h⟩ := h.of_bind
    rw [h.of_pure]
    exact .named name aliasName
  · exact absurd h not_gives_unexpected

/-- A condition that suits the kind of a join, and whose expression is given by the grammar below. -/
structure GivesMatch (g : Grammar) (kind : JoinKind) (m : JoinMatch) : Prop where
  suits : suitsJoin kind m = true
  condition : ∀ e, m = .on e → Gives g.expression e

/-- Sources, joined from the left. -/
inductive Joined (g : Grammar) : Source → Prop
  | operand {s : Source} : Gives g.sourcePrimary s → Joined g s
  | join {left right : Source} {kind : JoinKind} {m : JoinMatch} : Joined g left →
    Gives g.sourcePrimary right → GivesMatch g kind m → Joined g (.join kind left right m)

theorem Gives.of_joinMatch {kind : JoinKind} {m : JoinMatch} (crossed : kind ≠ .cross)
    (h : Gives (g.joinMatch kind) m) : GivesMatch g kind m := by
  have other : (kind != .cross) = true := bne_iff_ne.2 crossed
  obtain ⟨_, -, h⟩ := h.of_bind
  rcases h.of_ite with ⟨-, h⟩ | ⟨-, h⟩
  · obtain ⟨e, given, h⟩ := h.of_bind
    rw [h.of_pure]
    refine ⟨other, ?_⟩
    rintro e' ⟨⟩
    exact given
  · obtain ⟨_, -, h⟩ := h.of_bind
    rcases h.of_ite with ⟨-, h⟩ | ⟨-, h⟩
    · obtain ⟨names, given, h⟩ := h.of_bind
      rw [h.of_pure]
      exact ⟨by simp [suitsJoin, crossed, given.of_columnNames], by rintro e ⟨⟩⟩
    · rcases h.of_ite with ⟨inner, h⟩ | ⟨-, h⟩
      · rw [h.of_pure]
        exact ⟨by rw [suitsJoin, inner, Bool.or_true], by rintro e ⟨⟩⟩
      · exact absurd h not_gives_unexpected

theorem Joined.of_joinFrom {left : Source} {kind : JoinKind} {natural : Bool} (joined : Joined g left)
    (h : Gives (g.joinFrom kind natural left) s) :
    Joined g s := by
  obtain ⟨_, -, h⟩ := h.of_bind
  obtain ⟨right, given, h⟩ := h.of_bind
  rcases h.of_ite with ⟨crossed, h⟩ | ⟨crossed, h⟩
  · obtain ⟨m, always, h⟩ := h.of_bind
    rw [h.of_pure, always.of_pure]
    exact joined.join given ⟨by rw [suitsJoin, crossed, Bool.true_or], by rintro e ⟨⟩⟩
  · have crossed : kind ≠ .cross := by simpa using crossed
    rcases h.of_ite with ⟨word, h⟩ | ⟨-, h⟩
    · obtain ⟨m, natural, h⟩ := h.of_bind
      rw [h.of_pure, natural.of_pure]
      exact joined.join given ⟨bne_iff_ne.2 crossed, by rintro e ⟨⟩⟩
    · obtain ⟨m, matching, h⟩ := h.of_bind
      rw [h.of_pure]
      exact joined.join given (matching.of_joinMatch crossed)

theorem Gives.of_joinedSource (h : Gives g.joinedSource s) : Joined g s := by
  have grow {bound : Nat} {left : Source} (joined : Joined g left)
      (h : Gives (g.joinsFrom bound left) s) : Joined g s := by
    induction bound generalizing left with
    | zero => rwa [h.of_pure]
    | succ bound ih =>
      obtain ⟨_, -, h⟩ := h.of_bind
      rcases h.of_ite with ⟨-, h⟩ | ⟨-, h⟩
      · obtain ⟨next, given, h⟩ := h.of_bind
        exact ih (joined.of_joinFrom given) h
      · obtain ⟨natural, -, h⟩ := h.of_bind
        obtain ⟨kind?, -, h⟩ := h.of_bind
        cases kind? with
        | some kind =>
          obtain ⟨next, given, h⟩ := Gives.of_bind h
          exact ih (joined.of_joinFrom given) h
        | none =>
          rcases Gives.of_ite h with ⟨-, h⟩ | ⟨-, h⟩
          · exact absurd h not_gives_unexpected
          · rwa [h.of_pure]
  obtain ⟨left, first, h⟩ := h.of_bind
  obtain ⟨_, -, h⟩ := h.of_bind
  exact grow (.operand first) h

/-! ## Queries -/

/-- The forms of an operand of a set operation. -/
inductive BodyForm (g : Grammar) : Body → Prop
  | select (distinct : Bool) {fields : List Field} {sources : List Source}
    {condition having : Option Expr} {groups : List Expr} : fields ≠ [] →
    (∀ e aliasName, .mk e aliasName ∈ fields → Gives g.expression e) →
    (∀ s ∈ sources, Gives g.source s) → (∀ e ∈ condition, Gives g.expression e) →
    (∀ e ∈ groups, Gives g.expression e) → (∀ e ∈ having, Gives g.expression e) →
    BodyForm g (.select distinct fields sources condition groups having)
  | nested {q : Query} : Gives g.query q → BodyForm g (.nested q)

theorem mem_of_getD {α : Type} {xs? : Option (List α)} {p : α → Prop} (h : ∀ xs ∈ xs?, ∀ x ∈ xs, p x) :
    ∀ x ∈ xs?.getD [], p x := by
  cases xs? with
  | none => simp
  | some xs => exact h xs rfl

theorem Gives.of_selectBody {body : Body} (h : Gives g.selectBody body) : BodyForm g body := by
  obtain ⟨_, -, h⟩ := h.of_bind
  obtain ⟨distinct, -, h⟩ := h.of_bind
  obtain ⟨fields, list, h⟩ := h.of_bind
  obtain ⟨sources, from', h⟩ := h.of_bind
  obtain ⟨condition, test, h⟩ := h.of_bind
  obtain ⟨groups, group, h⟩ := h.of_bind
  obtain ⟨having, last, h⟩ := h.of_bind
  rw [h.of_pure]
  refine .select distinct list.of_separatedBy.1 (fun e aliasName member => ?_)
    (mem_of_getD fun sources member => (from'.of_afterKeyword _ member).of_separatedBy.2)
    test.of_afterKeyword (mem_of_getD fun groups member => ?_) last.of_afterKeyword
  · obtain ⟨e', given, field⟩ := (list.of_separatedBy.2 _ member).of_bind
    obtain ⟨_, -, field⟩ := field.of_bind
    obtain ⟨rfl, -⟩ := Field.mk.inj field.of_pure
    exact given
  · obtain ⟨_, -, h⟩ := (group.of_afterKeyword groups member).of_bind
    exact h.of_separatedBy.2

theorem Gives.of_bodyPrimary {body : Body} (h : Gives g.bodyPrimary body) : BodyForm g body := by
  obtain ⟨_, -, h⟩ := h.of_bind
  rcases h.of_ite with ⟨-, h⟩ | ⟨-, h⟩
  · obtain ⟨q, given, h⟩ := h.of_bind
    rw [h.of_pure]
    exact .nested given.of_inParens
  · exact h.of_selectBody

theorem Gives.of_takeSetOp {op? : Token → Option SetOp} {f : Body → Body → Body}
    (h : Gives (takeSetOp? op?) (some f)) :
    ∃ t op all, op? t = some op ∧ f = .combine op all := by
  obtain ⟨found, operator, h⟩ := h.of_bind
  cases found with
  | none => cases Gives.of_pure h
  | some op =>
    obtain ⟨all, -, h⟩ := Gives.of_bind h
    obtain ⟨t, -, operator⟩ := operator.of_bind
    cases taken : op? t with
    | none =>
      rw [taken] at operator
      cases Gives.of_pure operator
    | some op' =>
      rw [taken] at operator
      obtain ⟨_, -, operator⟩ := Gives.of_bind operator
      obtain rfl := Option.some.inj operator.of_pure
      exact ⟨t, op, all, taken, Option.some.inj h.of_pure⟩

/-- What a query that is given consists of. -/
structure GivesParts (g : Grammar) (recursive : Bool) (tables : List InlineDef) (body : Body)
    (order : List OrderItem) (offset : Option Expr) (limit : Limit) : Prop where
  flat : tables = [] → recursive = false
  tables : ∀ name columns q, .mk name columns q ∈ tables → Gives g.query q
  body : Gives g.body body
  order : GivesOrder g order
  offset : ∀ e ∈ offset, Gives g.expression e
  limit : ∀ count percent ties, limit = .rows count percent ties → Gives g.expression count

theorem Gives.of_inlineDefs {recursive : Bool} {tables : List InlineDef}
    (h : Gives g.inlineDefs (recursive, tables)) : (tables = [] → recursive = false) ∧
      ∀ name columns q, .mk name columns q ∈ tables → Gives g.query q := by
  obtain ⟨_, -, h⟩ := h.of_bind
  rcases h.of_ite with ⟨-, h⟩ | ⟨-, h⟩
  · obtain ⟨recursive', -, h⟩ := h.of_bind
    obtain ⟨tables', list, h⟩ := h.of_bind
    obtain ⟨rfl, rfl⟩ := Prod.mk.inj h.of_pure
    refine ⟨fun empty => absurd empty list.of_separatedBy.1, fun name columns q member => ?_⟩
    obtain ⟨name', -, table⟩ := (list.of_separatedBy.2 _ member).of_bind
    obtain ⟨_, -, table⟩ := table.of_bind
    have close {columns' : List String} (table : Gives (do
        Parser.expectKeyword .as
        return InlineDef.mk name' columns' (← Parser.inParens g.query)) (.mk name columns q)) :
        Gives g.query q := by
      obtain ⟨_, -, table⟩ := table.of_bind
      obtain ⟨q', given, table⟩ := table.of_bind
      obtain ⟨-, -, rfl⟩ := InlineDef.mk.inj table.of_pure
      exact given.of_inParens
    rcases table.of_ite with ⟨-, table⟩ | ⟨-, table⟩
    · obtain ⟨columns', -, table⟩ := table.of_bind
      exact close table
    · obtain ⟨columns', -, table⟩ := table.of_bind
      exact close table
  · obtain ⟨rfl, rfl⟩ := Prod.mk.inj h.of_pure
    exact ⟨fun _ => rfl, by simp⟩

theorem Gives.of_offset {offset : Option Expr} (h : Gives g.offset offset) :
    ∀ e ∈ offset, Gives g.expression e := by
  intro e member
  obtain ⟨e', given, h⟩ := (h.of_afterKeyword e member).of_bind
  obtain ⟨_, -, h⟩ := h.of_bind
  rcases h.of_ite with ⟨-, h⟩ | ⟨-, h⟩
  · obtain ⟨_, -, h⟩ := h.of_bind
    rwa [h.of_pure]
  · rwa [h.of_pure]

theorem Gives.of_limit {limit : Limit} (h : Gives g.limit limit) :
    ∀ count percent ties, limit = .rows count percent ties → Gives g.expression count := by
  obtain ⟨_, -, h⟩ := h.of_bind
  rcases h.of_ite with ⟨-, h⟩ | ⟨-, h⟩
  · obtain ⟨count, given, h⟩ := h.of_bind
    obtain ⟨_, -, h⟩ := h.of_bind
    obtain ⟨_, -, h⟩ := h.of_bind
    rintro count' percent ties rfl
    obtain ⟨rfl, -, -⟩ := Limit.rows.inj h.of_pure
    exact given
  · rintro count percent ties rfl
    cases h.of_pure

theorem Gives.of_fullQuery {recursive : Bool} {tables : List InlineDef} {body : Body}
    {order : List OrderItem} {offset : Option Expr} {limit : Limit}
    (h : Gives g.fullQuery (.mk recursive tables body order offset limit)) :
    GivesParts g recursive tables body order offset limit := by
  obtain ⟨⟨recursive', tables'⟩, with', h⟩ := h.of_bind
  obtain ⟨body', first, h⟩ := Gives.of_bind h
  obtain ⟨order', keys, h⟩ := h.of_bind
  obtain ⟨early, before, h⟩ := h.of_bind
  obtain ⟨limit', count, h⟩ := h.of_bind
  have close {offset' : Option Expr} (given : ∀ e ∈ offset', Gives g.expression e)
      (h : Gives (pure (.mk recursive' tables' body' order' offset' limit') : Parser Query)
        (.mk recursive tables body order offset limit)) :
      GivesParts g recursive tables body order offset limit := by
    obtain ⟨rfl, rfl, rfl, rfl, rfl, rfl⟩ := Query.mk.inj h.of_pure
    exact ⟨with'.of_inlineDefs.1, with'.of_inlineDefs.2, first, keys.of_order, given, count.of_limit⟩
  rcases h.of_ite with ⟨-, h⟩ | ⟨-, h⟩
  · obtain ⟨offset', same, h⟩ := h.of_bind
    rw [same.of_pure] at h
    exact close before.of_offset h
  · obtain ⟨offset', after, h⟩ := h.of_bind
    exact close after.of_offset h

end

end TableQuery.Language
