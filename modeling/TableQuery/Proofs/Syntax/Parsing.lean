import Mathlib.Data.List.Forall2
import TableQuery.Language.Parser
import TableQuery.Proofs.Syntax.Tokens

/-!
# What parsers take

A parser takes tokens from the front, and what follows them decides where it stops. Each combinator
takes what its parts take, in turn.
-/

namespace TableQuery.Language

/-- In front of the tokens `rest` the parser takes the tokens `ts` and gives `a`. -/
def Takes {α : Type} (p : Parser α) (ts : List Token) (a : α) (rest : List Token) : Prop :=
  ∀ ls rs, ls.map Lexeme.token = ts → rs.map Lexeme.token = rest → p (ls ++ rs) = .ok (a, rs)

/-- The next one of the tokens. -/
def ahead (ts : List Token) : Token :=
  ts.headD .ending

theorem Token.isKeyword_iff {k : Keyword} {t : Token} : t.isKeyword k = true ↔ t = .keyword k := by
  cases t <;> simp [Token.isKeyword]
  exact eq_comm

theorem Token.isSymbol_iff {s : Symbol} {t : Token} : t.isSymbol s = true ↔ t = .symbol s := by
  cases t <;> simp [Token.isSymbol]
  exact eq_comm

/-! ## Results -/

theorem toOption_eq_some {ε α : Type} {x : Except ε α} {a : α} (h : x.toOption = some a) :
    x = .ok a := by
  cases x with
  | error => cases h
  | ok => exact congrArg Except.ok (Option.some.inj h)

theorem toOption_eq_none {ε α : Type} {x : Except ε α} (h : x.toOption.isNone = true) :
    ∃ e, x = .error e := by
  cases x with
  | error e => exact ⟨e, rfl⟩
  | ok => cases h

section

variable {α β : Type} {p : Parser α} {f : α → Parser β} {g : α → β} {a : α} {b : β}
  {ts us rest : List Token} {t : Token} {ls mid : List Lexeme}

/-! ## Running in turn -/

theorem run_bind (h : p ls = .ok (a, mid)) : (p >>= f) ls = f a mid := by
  show Except.bind (p ls) _ = _
  rw [h]
  rfl

/-- A run in turn that succeeds is two runs that do. -/
theorem bind_eq_ok {rs : List Lexeme} :
    (p >>= f) ls = .ok (b, rs) ↔ ∃ a mid, p ls = .ok (a, mid) ∧ f a mid = .ok (b, rs) := by
  show Except.bind (p ls) _ = _ ↔ _
  cases p ls with
  | error e => simp [Except.bind]
  | ok result =>
    obtain ⟨a, mid⟩ := result
    constructor
    · intro h
      exact ⟨a, mid, rfl, h⟩
    · rintro ⟨_, _, ⟨⟩, h⟩
      exact h

/-- A run in turn fails in its first part, or in its second part after the first one. -/
theorem bind_eq_error {e : QueryError} :
    (p >>= f) ls = .error e ↔ p ls = .error e ∨ ∃ a mid, p ls = .ok (a, mid) ∧ f a mid = .error e := by
  show Except.bind (p ls) _ = _ ↔ _
  cases p ls with
  | error e' => simp [Except.bind]
  | ok result =>
    obtain ⟨a, mid⟩ := result
    constructor
    · intro h
      exact .inr ⟨a, mid, rfl, h⟩
    · rintro (⟨⟨⟩⟩ | ⟨_, _, ⟨⟩, h⟩)
      exact h

theorem pure_eq_ok {a' : α} {rs : List Lexeme} :
    (pure a : Parser α) ls = .ok (a', rs) ↔ a = a' ∧ ls = rs := by
  show Except.ok (a, ls) = _ ↔ _
  simp

theorem Takes.bind (h : Takes p ts a (us ++ rest)) (h' : Takes (f a) us b rest) :
    Takes (p >>= f) (ts ++ us) b rest := by
  intro ls rs tokens following
  obtain ⟨first, second, rfl, rfl, rfl⟩ := List.map_eq_append_iff.1 tokens
  rw [List.append_assoc, run_bind (h first (second ++ rs) rfl (by rw [List.map_append, following]))]
  exact h' second rs rfl following

/-- A first parser that takes one token. -/
theorem Takes.bind_one (h : Takes p [t] a (us ++ rest)) (h' : Takes (f a) us b rest) :
    Takes (p >>= f) (t :: us) b rest :=
  h.bind h'

/-- A first parser that takes nothing. -/
theorem Takes.bind_none (h : Takes p [] a (us ++ rest)) (h' : Takes (f a) us b rest) :
    Takes (p >>= f) us b rest :=
  h.bind h'

theorem Takes.pure (a : α) (rest : List Token) : Takes (pure a) [] a rest := by
  intro ls rs tokens _
  rw [List.map_eq_nil_iff.1 tokens]
  rfl

theorem Takes.map (h : Takes p ts a rest) : Takes (g <$> p) ts (g a) rest := by
  intro ls rs tokens following
  show Except.bind (p (ls ++ rs)) _ = _
  rw [h ls rs tokens following]
  rfl

/-- A second parser that takes nothing more. -/
theorem Takes.bind_nil (h : Takes p ts a rest) (h' : Takes (f a) [] b rest) :
    Takes (p >>= f) ts b rest := by
  rw [← List.append_nil ts]
  exact Takes.bind h h'

theorem Takes.bind_pure (h : Takes p ts a rest) :
    Takes (p >>= fun x => Pure.pure (g x)) ts (g a) rest :=
  h.bind_nil (Takes.pure (g a) rest)

/-- A parser that looks at the tokens and takes none. -/
theorem Takes.bind_look {look : Parser α} (view : List Token → α) {f : α → Parser β}
    (seen : ∀ ls, look ls = .ok (view (ls.map Lexeme.token), ls))
    (h : Takes (f (view (ts ++ rest))) ts b rest) : Takes (look >>= f) ts b rest := by
  intro ls rs tokens following
  rw [run_bind (seen (ls ++ rs)), List.map_append, tokens, following]
  exact h ls rs tokens following

theorem peek_eq (ls : List Lexeme) : Parser.peek ls = .ok (ahead (ls.map Lexeme.token), ls) := by
  cases ls <;> rfl

theorem Takes.bind_peek {f : Token → Parser β} (h : Takes (f (ahead (ts ++ rest))) ts b rest) :
    Takes (Parser.peek >>= f) ts b rest :=
  Takes.bind_look ahead peek_eq h

theorem Takes.bind_peekSecond {f : Token → Parser β}
    (h : Takes (f (ahead (ts ++ rest).tail)) ts b rest) : Takes (Parser.peekSecond >>= f) ts b rest :=
  Takes.bind_look (fun ts => ahead ts.tail) (fun ls => by rcases ls with _ | ⟨l, _ | _⟩ <;> rfl) h

theorem Takes.bind_atSymbol {s : Symbol} {f : Bool → Parser β}
    (h : Takes (f ((ahead (ts ++ rest)).isSymbol s)) ts b rest) :
    Takes (Parser.atSymbol s >>= f) ts b rest :=
  Takes.bind_look (fun ts => (ahead ts).isSymbol s) (fun ls => by cases ls <;> rfl) h

theorem Takes.bind_atKeyword {k : Keyword} {f : Bool → Parser β}
    (h : Takes (f ((ahead (ts ++ rest)).isKeyword k)) ts b rest) :
    Takes (Parser.atKeyword k >>= f) ts b rest :=
  Takes.bind_look (fun ts => (ahead ts).isKeyword k) (fun ls => by cases ls <;> rfl) h

/-- Whether a query starts with the token. -/
def Token.startsQuery (t : Token) : Bool :=
  t.isKeyword .select || t.isKeyword .with

theorem Takes.bind_atQuery {f : Bool → Parser β}
    (h : Takes (f (ahead (ts ++ rest)).startsQuery) ts b rest) :
    Takes (Parser.atQuery >>= f) ts b rest :=
  Takes.bind_look (fun ts => (ahead ts).startsQuery) (fun ls => by cases ls <;> rfl) h

/-- A parser that counts what is left. -/
theorem Takes.bind_remaining {f : Nat → Parser β}
    (h : ∀ n, ts.length + rest.length ≤ n → Takes (f n) ts b rest) :
    Takes (Parser.remaining >>= f) ts b rest := by
  intro ls rs tokens following
  have seen : Parser.remaining (ls ++ rs) = .ok ((ls ++ rs).length, ls ++ rs) := rfl
  have count : ts.length + rest.length = (ls ++ rs).length := by
    rw [← tokens, ← following, List.length_map, List.length_map, List.length_append]
  rw [run_bind seen]
  exact h _ (Nat.le_of_eq count) ls rs tokens following

/-- A parser that may only succeed where the next token passes the test. -/
def StartsWith (p : Parser α) (test : Token → Bool) : Prop :=
  ∀ ls a rest, p ls = .ok (a, rest) → test (ahead (ls.map Lexeme.token)) = true

theorem StartsWith.bind {test : Token → Bool} (h : StartsWith p test) :
    StartsWith (p >>= f) test := by
  intro ls b rest run
  obtain ⟨a, mid, first, -⟩ := bind_eq_ok.1 run
  exact h ls a mid first

/-- What a parser takes starts like everything that it takes. -/
theorem StartsWith.ahead {test : Token → Bool} (h : StartsWith p test) (took : Takes p ts a rest) :
    test (ahead (ts ++ rest)) = true := by
  have run := took (ts.map (⟨·, 0⟩)) (rest.map (⟨·, 0⟩)) (by simp [Function.comp_def])
    (by simp [Function.comp_def])
  simpa [Function.comp_def] using h _ _ _ run

theorem unexpected_ne_ok {expected : String} {rs : List Lexeme} :
    (Parser.unexpected expected : Parser α) ls ≠ .ok (a, rs) := by
  intro h
  cases ls <;> cases h

/-! ## Single tokens -/

theorem takes_advance : Takes Parser.advance [t] () rest := by
  intro ls rs tokens _
  obtain ⟨l, rfl, -⟩ := List.map_eq_singleton_iff.1 tokens
  rfl

theorem takes_takeIf {test : Token → Bool} (h : test t = true) :
    Takes (Parser.takeIf test) [t] true rest := by
  refine Takes.bind_peek ?_
  show Takes (if test t = true then _ else _) [t] true rest
  rw [if_pos h]
  exact takes_advance.bind (Takes.pure true rest)

theorem takes_takeIf_not {test : Token → Bool} (h : test (ahead rest) = false) :
    Takes (Parser.takeIf test) [] false rest := by
  refine Takes.bind_peek ?_
  rw [List.nil_append, h]
  exact Takes.pure false rest

theorem takes_keyword (k : Keyword) : Takes (Parser.takeKeyword k) [.keyword k] true rest :=
  takes_takeIf (by simp [Token.isKeyword])

theorem takes_symbol (s : Symbol) : Takes (Parser.takeSymbol s) [.symbol s] true rest :=
  takes_takeIf (by simp [Token.isSymbol])

theorem takes_expectKeyword (k : Keyword) : Takes (Parser.expectKeyword k) [.keyword k] () rest :=
  (takes_keyword k).bind (Takes.pure () rest)

theorem takes_expectSymbol (s : Symbol) : Takes (Parser.expectSymbol s) [.symbol s] () rest :=
  (takes_symbol s).bind (Takes.pure () rest)

theorem takes_expectEnding : Takes Parser.expectEnding [.ending] () rest :=
  Takes.bind_peek takes_advance

theorem takes_expectName (what name : String) :
    Takes (Parser.expectName what) [.identifier name] name rest :=
  Takes.bind_one
    (Takes.bind_peek (takes_advance.bind (Takes.pure (some name) rest))) (Takes.pure name rest)

theorem takes_operator {operator? : Token → Option α} (h : operator? t = some a) :
    Takes (Parser.takeOperator? operator?) [t] (some a) rest := by
  refine Takes.bind_peek ?_
  have first : ahead ([t] ++ rest) = t := rfl
  rw [first, h]
  exact takes_advance.bind (Takes.pure (some a) rest)

theorem takes_operator_none {operator? : Token → Option α} (h : operator? (ahead rest) = none) :
    Takes (Parser.takeOperator? operator?) [] none rest := by
  refine Takes.bind_peek ?_
  rw [List.nil_append, h]
  exact Takes.pure none rest

/-! ## Runs of single tokens -/

section

variable {rs : List Lexeme} {u : Unit} {took : Bool}

theorem takeIf_eq (test : Token → Bool) (ls : List Lexeme) : Parser.takeIf test ls =
    .ok (if test (ahead (ls.map Lexeme.token)) then (true, ls.tail) else (false, ls)) := by
  refine (run_bind (peek_eq ls)).trans ?_
  split <;> rfl

theorem takeIf_eq_ok {test : Token → Bool} : Parser.takeIf test ls = .ok (took, rs) ↔
    took = test (ahead (ls.map Lexeme.token)) ∧ rs = if took then ls.tail else ls := by
  rw [takeIf_eq]
  cases test (ahead (ls.map Lexeme.token)) <;> cases took <;> simp [eq_comm]

/-- A token that is expected was there and is taken. -/
theorem expect_ok {test : Token → Bool} {expected : String}
    (run : (do if !(← Parser.takeIf test) then Parser.unexpected expected) ls = .ok (u, rs)) :
    test (ahead (ls.map Lexeme.token)) = true ∧ rs = ls.tail := by
  obtain ⟨took, mid, first, second⟩ := bind_eq_ok.1 run
  obtain ⟨rfl, rfl⟩ := takeIf_eq_ok.1 first
  cases there : test (ahead (ls.map Lexeme.token)) with
  | false =>
    rw [there] at second
    exact absurd second unexpected_ne_ok
  | true =>
    rw [there] at second
    exact ⟨rfl, (pure_eq_ok.1 second).2.symm⟩

theorem expectKeyword_ok {k : Keyword} (run : Parser.expectKeyword k ls = .ok (u, rs)) :
    ahead (ls.map Lexeme.token) = .keyword k ∧ rs = ls.tail := by
  obtain ⟨there, rest⟩ := expect_ok run
  exact ⟨Token.isKeyword_iff.1 there, rest⟩

end

/-! ## Combinators -/

theorem Takes.inParens (h : Takes p ts a (.symbol .rightParen :: rest)) :
    Takes (Parser.inParens p) (.symbol .leftParen :: (ts ++ [.symbol .rightParen])) a rest := by
  refine Takes.bind_one (takes_expectSymbol .leftParen) ?_
  exact Takes.bind h ((takes_expectSymbol .rightParen).bind (Takes.pure a rest))

theorem Takes.afterKeyword {k : Keyword} (h : Takes p ts a rest) :
    Takes (Parser.afterKeyword? k p) (.keyword k :: ts) (some a) rest := by
  refine Takes.bind_one (takes_keyword k) ?_
  exact h.map

theorem takes_afterKeyword_none {k : Keyword} (h : (ahead rest).isKeyword k = false) :
    Takes (Parser.afterKeyword? k p) [] none rest :=
  Takes.bind_none (takes_takeIf_not h) (Takes.pure none rest)

/-! ## Lists -/

theorem separated_cons (separator : Symbol) (ts : List Token) (items : List (List Token)) :
    separated separator (ts :: items) = ts ++ items.flatMap (.symbol separator :: ·) := by
  induction items generalizing ts with
  | nil => simp [separated]
  | cons us items ih => simp [separated, ih]

theorem length_le_flatMap (separator : Symbol) (items : List (List Token)) :
    items.length ≤ (items.flatMap (.symbol separator :: ·)).length := by
  induction items with
  | nil => simp
  | cons us items ih =>
    simp only [List.flatMap_cons, List.length_append, List.length_cons]
    omega

section

variable {separator : Symbol} {item : Parser α} {items : List (List Token)} {xs : List α}

/-- Each of the items is taken in front of the items behind it, which have separators in front of
them, and of what follows the list. -/
inductive TakesList (item : Parser α) (separator : Symbol) (rest : List Token) :
    List (List Token) → List α → Prop
  | nil : TakesList item separator rest [] []
  | cons {ts : List Token} {x : α} {items : List (List Token)} {xs : List α} :
    Takes item ts x (items.flatMap (.symbol separator :: ·) ++ rest) →
      TakesList item separator rest items xs → TakesList item separator rest (ts :: items) (x :: xs)

theorem TakesList.length_eq (list : TakesList item separator rest items xs) :
    items.length = xs.length := by
  induction list with
  | nil => rfl
  | cons _ _ ih => rw [List.length_cons, List.length_cons, ih]

/-- Items that are taken in front of a separator and in front of what follows the list. -/
theorem TakesList.of_each
    (each : List.Forall₂ (fun ts x => ∀ r, r = rest ∨ ahead r = .symbol separator →
      Takes item ts x r) items xs) : TakesList item separator rest items xs := by
  induction each with
  | nil => exact .nil
  | @cons ts x items xs head tail ih =>
    refine .cons (head _ ?_) ih
    cases items with
    | nil => exact .inl rfl
    | cons => exact .inr rfl

theorem takes_itemsAfter (list : TakesList item separator rest items xs)
    (stop : ahead rest ≠ .symbol separator) {bound : Nat} (enough : xs.length ≤ bound) :
    Takes (Parser.itemsAfter separator item bound) (items.flatMap (.symbol separator :: ·)) xs
      rest := by
  have notSeparator : (ahead rest).isSymbol separator = false := by
    rwa [← Bool.not_eq_true, Token.isSymbol_iff]
  induction list generalizing bound with
  | nil =>
    cases bound with
    | zero => exact Takes.pure [] rest
    | succ bound => exact Takes.bind_none (takes_takeIf_not notSeparator) (Takes.pure [] rest)
  | @cons ts x items xs head tail ih =>
    cases bound with
    | zero => simp at enough
    | succ bound =>
      refine Takes.bind_one (takes_symbol separator) ?_
      exact Takes.bind head (ih (Nat.le_of_succ_le_succ enough)).map

theorem takes_separatedBy (list : TakesList item separator rest items xs) (nonempty : xs ≠ [])
    (stop : ahead rest ≠ .symbol separator) :
    Takes (Parser.separatedBy separator item) (separated separator items) xs rest := by
  cases list with
  | nil => exact absurd rfl nonempty
  | @cons ts x items xs head tail =>
    rw [separated_cons]
    refine Takes.bind head (Takes.bind_remaining fun n enough => ?_)
    have separators := length_le_flatMap separator items
    have count := tail.length_eq
    exact (takes_itemsAfter tail stop (by omega)).map

end

/-! ## Chains -/

section

variable {operand : Parser α} {operator? : Parser (Option (α → α → α))} {combine : α → α → α}
  {vs : List Token}

/-- In front of the tokens `rest` the chain takes the tokens `ts` as the operands so far, and may
go on from there. -/
def Leads (operand : Parser α) (operator? : Parser (Option (α → α → α))) (ts : List Token) (a : α)
    (rest : List Token) : Prop :=
  ∀ ls rs, ls.map Lexeme.token = ts → rs.map Lexeme.token = rest → ∃ bound, rs.length ≤ bound ∧
    Parser.chain operand operator? (ls ++ rs) = Parser.chainFrom operand operator? bound a rs

theorem Takes.leads (h : Takes operand ts a rest) : Leads operand operator? ts a rest := by
  intro ls rs tokens following
  refine ⟨rs.length, Nat.le_refl _, ?_⟩
  have counted : Parser.remaining rs = .ok (rs.length, rs) := rfl
  exact (run_bind (h ls rs tokens following)).trans (run_bind counted)

/-- One operator and one operand more. -/
theorem Leads.step (h : Leads operand operator? ts a (t :: us ++ (vs ++ rest)))
    (operator : Takes operator? (t :: us) (some combine) (vs ++ rest))
    (h' : Takes operand vs b' rest) :
    Leads operand operator? (ts ++ (t :: us ++ vs)) (combine a b') rest := by
  intro ls rs tokens following
  obtain ⟨first, more, rfl, rfl, split⟩ := List.map_eq_append_iff.1 tokens
  obtain ⟨second, third, rfl, second', third'⟩ := List.map_eq_append_iff.1 split
  obtain ⟨bound, enough, lead⟩ := h first (second ++ (third ++ rs)) rfl
    (by simp [second', third', following])
  have took := operator second (third ++ rs) second' (by simp [third', following])
  have right := h' third rs third' following
  have nonempty : 0 < second.length := List.length_pos_iff.2 (by rintro rfl; cases second')
  simp only [List.length_append] at enough
  cases bound with
  | zero => omega
  | succ bound =>
    refine ⟨bound, by omega, ?_⟩
    rw [List.append_assoc, List.append_assoc, lead, Parser.chainFrom, run_bind took]
    exact run_bind right

/-- One operand more, behind an operator of one token. -/
theorem Leads.operator {operator? : Token → Option (α → α → α)}
    (h : Leads operand (Parser.takeOperator? operator?) ts a (t :: (vs ++ rest)))
    (operator : operator? t = some combine) (h' : Takes operand vs b' rest) :
    Leads operand (Parser.takeOperator? operator?) (ts ++ t :: vs) (combine a b') rest := by
  have token : Takes (Parser.takeOperator? operator?) [t] (some combine) (vs ++ rest) :=
    takes_operator operator
  exact Leads.step h token h'

/-- The chain ends where no operator follows. -/
theorem Leads.takes (h : Leads operand operator? ts a rest)
    (stop : Takes operator? [] none rest) : Takes (Parser.chain operand operator?) ts a rest := by
  intro ls rs tokens following
  obtain ⟨bound, -, lead⟩ := h ls rs tokens following
  rw [lead]
  cases bound with
  | zero => rfl
  | succ bound =>
    have stopped := stop [] rs rfl following
    exact run_bind stopped

end

end

end TableQuery.Language
