import TableQuery.Proofs.Syntax.Following

/-!
# Parsers in front of other ends

A parser stops in front of a token that it cannot go on with. Where that is the end of the text, or
the first word of a clause that cuts the rows of a query, it does not matter which of them it is, nor
what stands behind it: a steady parser takes the same lexemes in front of all of them. Two parsers
are related here, because a longer text is read by a deeper grammar.
-/

namespace TableQuery.Language

open Language.Grammar

/-- Whether a text may end in front of the token, or be cut: no expression and no body of a query
goes on with it. -/
def Token.cuts : Token → Bool
  | .ending | .symbol .semicolon | .keyword .offset | .keyword .limit | .keyword .with => true
  | _ => false

/-- The lexemes are none or start with such a token. -/
def Cut (ls : List Lexeme) : Prop :=
  (ahead (ls.map Lexeme.token)).cuts = true

section

variable {t : Token}

/-- What holds of these tokens one by one holds of all at which a text may be cut. -/
theorem Token.forall_cuts {P : Token → Prop} (ending : P .ending)
    (semicolon : P (.symbol .semicolon)) (offset : P (.keyword .offset))
    (limit : P (.keyword .limit)) (withTables : P (.keyword .with)) (t : Token)
    (h : t.cuts = true) : P t := by
  unfold cuts at h
  split at h
  · exact ending
  · exact semicolon
  · exact offset
  · exact limit
  · exact withTables
  · cases h

theorem Token.not_keyword_of_cuts {k : Keyword} (h : t.cuts = true)
    (other : (Token.keyword k).cuts = false) : t.isKeyword k = false := by
  rw [← Bool.not_eq_true, Token.isKeyword_iff]
  rintro rfl
  rw [other] at h
  cases h

theorem Token.not_symbol_of_cuts {s : Symbol} (h : t.cuts = true)
    (other : (Token.symbol s).cuts = false) : t.isSymbol s = false := by
  rw [← Bool.not_eq_true, Token.isSymbol_iff]
  rintro rfl
  rw [other] at h
  cases h

theorem Token.not_word_of_cuts {word : String} (h : t.cuts = true) : t.isWord word = false :=
  Token.forall_cuts (P := fun t => t.isWord word = false) rfl rfl rfl rfl rfl t h

theorem Token.not_name_of_cuts (h : t.cuts = true) : t.name? = none :=
  Token.forall_cuts (P := fun t => t.name? = none) rfl rfl rfl rfl rfl t h

end

/-- What `p` takes and gives in front of one cut, `p'` takes and gives in front of every other, if
there are at least `m` lexemes before it and `p` leaves at least `n` of them. -/
structure Steady {α : Type} (m n : Nat) (p p' : Parser α) : Prop where
  consumes : Consumes p
  consumes' : Consumes p'
  resumes : ∀ {ls mid rest rest' : List Lexeme} {a : α}, Cut rest → Cut rest' → m ≤ ls.length →
    n ≤ mid.length → p (ls ++ rest) = .ok (a, mid ++ rest) → p' (ls ++ rest') = .ok (a, mid ++ rest')

section

variable {α β : Type} {m n k : Nat} {p p' q q' : Parser α} {f f' : α → Parser β}

/-! ## Running in turn -/

theorem Steady.mono {m' n' : Nat} (h : Steady m n p p') (hm : m ≤ m') (hn : n ≤ n') :
    Steady m' n' p p' where
  consumes := h.consumes
  consumes' := h.consumes'
  resumes cut cut' before after run :=
    h.resumes cut cut' (Nat.le_trans hm before) (Nat.le_trans hn after) run

theorem Steady.any (h : Steady 0 0 p p') : Steady m n p p' :=
  h.mono (Nat.zero_le m) (Nat.zero_le n)

/-- Where the one parser leaves nothing in front of the cut, neither does the other. -/
theorem Steady.whole {ls rest rest' : List Lexeme} {a : α} (h : Steady m 0 p p') (cut : Cut rest)
    (cut' : Cut rest') (before : m ≤ ls.length) (run : p (ls ++ rest) = .ok (a, rest)) :
    p' (ls ++ rest') = .ok (a, rest') :=
  @Steady.resumes α m 0 p p' h ls [] rest rest' a cut cut' before (Nat.le_refl 0) run

/-- What is left was there before. -/
theorem Steady.later (h : Steady 1 1 p p') : Steady 0 1 p p' where
  consumes := h.consumes
  consumes' := h.consumes'
  resumes {ls mid rest rest' a} cut cut' _ after run := by
    have shorter := h.consumes.length_le run
    rw [List.length_append, List.length_append] at shorter
    exact h.resumes cut cut' (by omega) after run

theorem Steady.bind (h : Steady m n p p') (h' : ∀ a, Steady 0 n (f a) (f' a)) :
    Steady m n (p >>= f) (p' >>= f') where
  consumes := h.consumes.bind fun a => (h' a).consumes
  consumes' := h.consumes'.bind fun a => (h' a).consumes'
  resumes {ls mid rest rest' b} cut cut' before after run := by
    obtain ⟨a, s, first, second⟩ := bind_eq_ok.1 run
    obtain ⟨taken, rfl⟩ := (h' a).consumes.leaves second
    rw [← List.append_assoc] at first second
    have left : n ≤ (taken ++ mid).length := by
      rw [List.length_append]
      exact Nat.le_trans after (Nat.le_add_left _ _)
    rw [run_bind (h.resumes cut cut' before left first)]
    exact (h' a).resumes cut cut' (Nat.zero_le _) after second

theorem Steady.pure (a : α) : Steady m n (Pure.pure a) (Pure.pure a) where
  consumes := .pure a
  consumes' := .pure a
  resumes _ _ _ _ run := by
    obtain ⟨rfl, same⟩ := pure_eq_ok.1 run
    rw [List.append_cancel_right same]
    rfl

theorem Steady.map {g : α → β} (h : Steady m n p p') : Steady m n (g <$> p) (g <$> p') := by
  rw [← bind_pure_comp, ← bind_pure_comp]
  exact h.bind fun _ => .pure _

theorem Steady.ite {c : Prop} [Decidable c] (h : Steady m n p p') (h' : Steady m n q q') :
    Steady m n (if c then p else q) (if c then p' else q') := by
  split <;> assumption

theorem steady_unexpected (expected : String) :
    Steady m n (Parser.unexpected expected : Parser α) (Parser.unexpected expected) where
  consumes := consumes_unexpected expected
  consumes' := consumes_unexpected expected
  resumes _ _ _ _ run := absurd run unexpected_ne_ok

/-! ## Looking ahead -/

/-- A parser that looks at the next token, of which all cuts look alike. -/
theorem Steady.bind_look {look : Parser α} (view : Token → α)
    (seen : ∀ ls, look ls = .ok (view (ahead (ls.map Lexeme.token)), ls))
    (same : ∀ t t', t.cuts = true → t'.cuts = true → view t = view t')
    (h : ∀ a, Steady m n (f a) (f' a)) : Steady m n (look >>= f) (look >>= f') where
  consumes := (Consumes.of_look seen).bind fun a => (h a).consumes
  consumes' := (Consumes.of_look seen).bind fun a => (h a).consumes'
  resumes {ls mid rest rest' b} cut cut' before after run := by
    have alike : view (ahead ((ls ++ rest').map Lexeme.token))
        = view (ahead ((ls ++ rest).map Lexeme.token)) := by
      cases ls with
      | nil => exact same _ _ cut' cut
      | cons => rfl
    rw [run_bind (seen _)] at run ⊢
    rw [alike]
    exact (h _).resumes cut cut' before after run

/-- A parser that looks at the next token, if that is none of those behind. -/
theorem Steady.bind_look_one {look : Parser α} (view : Token → α)
    (seen : ∀ ls, look ls = .ok (view (ahead (ls.map Lexeme.token)), ls))
    (h : ∀ a, Steady 1 n (f a) (f' a)) : Steady 1 n (look >>= f) (look >>= f') where
  consumes := (Consumes.of_look seen).bind fun a => (h a).consumes
  consumes' := (Consumes.of_look seen).bind fun a => (h a).consumes'
  resumes {ls mid rest rest' b} cut cut' before after run := by
    cases ls with
    | nil => cases before
    | cons l ls =>
      rw [run_bind (seen _)] at run ⊢
      exact (h _).resumes cut cut' before after run

theorem Steady.bind_peek {f f' : Token → Parser β} (h : ∀ t, Steady 1 n (f t) (f' t)) :
    Steady 1 n (Parser.peek >>= f) (Parser.peek >>= f') :=
  .bind_look_one id peek_eq h

/-- A parser that looks at the next token and does the same in front of all cuts. -/
theorem Steady.bind_peek_cut {f f' : Token → Parser β} {r r' : Parser β}
    (h : ∀ t, Steady 1 n (f t) (f' t)) (stop : ∀ t, t.cuts = true → f t = r)
    (stop' : ∀ t, t.cuts = true → f' t = r') (stopped : Steady 0 n r r') :
    Steady m n (Parser.peek >>= f) (Parser.peek >>= f') where
  consumes := consumes_peek.bind fun t => (h t).consumes
  consumes' := consumes_peek.bind fun t => (h t).consumes'
  resumes {ls mid rest rest' b} cut cut' _ after run := by
    cases ls with
    | nil =>
      rw [run_bind (peek_eq _), List.nil_append, stop _ cut] at run
      rw [run_bind (peek_eq _), List.nil_append, stop' _ cut']
      exact @stopped.resumes [] mid rest rest' b cut cut' (Nat.le_refl 0) after run
    | cons l ls => exact (Steady.bind_peek h).resumes cut cut' (Nat.le_add_left 1 _) after run

theorem Steady.bind_atSymbol {s : Symbol} {f f' : Bool → Parser β}
    (other : (Token.symbol s).cuts = false) (h : ∀ b, Steady m n (f b) (f' b)) :
    Steady m n (Parser.atSymbol s >>= f) (Parser.atSymbol s >>= f') :=
  .bind_look (fun t => t.isSymbol s) (atSymbol_eq s)
    (fun t t' ht ht' => by
      rw [Token.not_symbol_of_cuts ht other, Token.not_symbol_of_cuts ht' other]) h

theorem Steady.bind_atKeyword {k : Keyword} {f f' : Bool → Parser β}
    (other : (Token.keyword k).cuts = false) (h : ∀ b, Steady m n (f b) (f' b)) :
    Steady m n (Parser.atKeyword k >>= f) (Parser.atKeyword k >>= f') :=
  .bind_look (fun t => t.isKeyword k) (fun ls => by cases ls <;> rfl)
    (fun t t' ht ht' => by
      rw [Token.not_keyword_of_cuts ht other, Token.not_keyword_of_cuts ht' other]) h

theorem Steady.bind_atQuery {f f' : Bool → Parser β} (h : ∀ b, Steady 1 n (f b) (f' b)) :
    Steady 1 n (Parser.atQuery >>= f) (Parser.atQuery >>= f') :=
  .bind_look_one Token.startsQuery (fun ls => by cases ls <;> rfl) h

/-! ## Single tokens -/

theorem steady_advance : Steady 1 n Parser.advance Parser.advance where
  consumes := consumes_advance
  consumes' := consumes_advance
  resumes {ls mid rest rest' u} _ _ before _ run := by
    cases ls with
    | nil => cases before
    | cons l ls =>
      have same : ls ++ rest = mid ++ rest := congrArg Prod.snd (Except.ok.inj run)
      rw [← List.append_cancel_right same]
      rfl

theorem steady_takeIf_one (test : Token → Bool) :
    Steady 1 n (Parser.takeIf test) (Parser.takeIf test) :=
  .bind_peek fun _ => .ite (steady_advance.bind fun _ => .pure _) (.pure _)

theorem steady_takeIf {test : Token → Bool} (other : ∀ t, t.cuts = true → test t = false) :
    Steady m n (Parser.takeIf test) (Parser.takeIf test) := by
  have stop (t : Token) (ht : t.cuts = true) : (if test t then do
      Parser.advance
      return true
    else return false : Parser Bool) = Pure.pure false := by
    rw [other t ht]
    rfl
  exact .bind_peek_cut (fun _ => .ite (steady_advance.bind fun _ => .pure _) (.pure _)) stop stop
    (.pure false)

theorem steady_takeKeyword {k : Keyword} (other : (Token.keyword k).cuts = false) :
    Steady m n (Parser.takeKeyword k) (Parser.takeKeyword k) :=
  steady_takeIf fun _ h => Token.not_keyword_of_cuts h other

theorem steady_takeSymbol {s : Symbol} (other : (Token.symbol s).cuts = false) :
    Steady m n (Parser.takeSymbol s) (Parser.takeSymbol s) :=
  steady_takeIf fun _ h => Token.not_symbol_of_cuts h other

theorem steady_takeWord (word : String) :
    Steady m n (Parser.takeWord word) (Parser.takeWord word) :=
  steady_takeIf fun _ h => Token.not_word_of_cuts h

theorem steady_expectKeyword {k : Keyword} (other : (Token.keyword k).cuts = false) :
    Steady m n (Parser.expectKeyword k) (Parser.expectKeyword k) :=
  (steady_takeKeyword other).bind fun _ => .ite (steady_unexpected _) (.pure _)

theorem steady_expectSymbol {s : Symbol} (other : (Token.symbol s).cuts = false) :
    Steady m n (Parser.expectSymbol s) (Parser.expectSymbol s) :=
  (steady_takeSymbol other).bind fun _ => .ite (steady_unexpected _) (.pure _)

theorem steady_takeOperator {operator? : Token → Option α}
    (other : ∀ t, t.cuts = true → operator? t = none) :
    Steady m n (Parser.takeOperator? operator?) (Parser.takeOperator? operator?) := by
  refine .bind_peek_cut (fun t => ?_) (fun t ht => ?_) (fun t ht => ?_) (.pure none)
  · cases operator? t with
    | some op => exact steady_advance.bind fun _ => .pure _
    | none => exact .pure _
  all_goals rw [other t ht]

theorem Steady.bind_takeOperator {operator? : Token → Option α} {f f' : Option α → Parser β}
    (other : ∀ t, t.cuts = true → operator? t = none)
    (taken : ∀ op, Steady 0 n (f (some op)) (f' (some op))) (nothing : Steady 0 n (f none) (f' none)) :
    Steady m n (Parser.takeOperator? operator? >>= f) (Parser.takeOperator? operator? >>= f') := by
  refine (steady_takeOperator other).bind fun op? => ?_
  cases op? with
  | some op => exact taken op
  | none => exact nothing

theorem steady_takeName : Steady m n Parser.takeName? Parser.takeName? := by
  refine .bind_peek_cut (fun t => ?_) (fun t ht => ?_) (fun t ht => ?_) (.pure none)
  · cases t.name? with
    | some name => exact steady_advance.bind fun _ => .pure _
    | none => exact .pure _
  all_goals rw [Token.not_name_of_cuts ht]

theorem steady_expectName (what : String) :
    Steady m n (Parser.expectName what) (Parser.expectName what) := by
  refine steady_takeName.bind fun name? => ?_
  cases name? with
  | some name => exact .pure _
  | none => exact steady_unexpected _

theorem steady_takeAlias (what : String) :
    Steady m n (Parser.takeAlias? what) (Parser.takeAlias? what) :=
  (steady_takeKeyword (k := .as) rfl).bind fun _ =>
    .ite ((steady_expectName what).bind fun _ => .pure _) steady_takeName

/-- A parser that takes nothing at a cut. -/
theorem Steady.of_idle {a : α} (h : Steady 1 n p p') (idle : ∀ ls, Cut ls → p ls = .ok (a, ls))
    (idle' : ∀ ls, Cut ls → p' ls = .ok (a, ls)) : Steady m n p p' where
  consumes := h.consumes
  consumes' := h.consumes'
  resumes {ls mid rest rest' b} cut cut' _ after run := by
    cases ls with
    | nil =>
      rw [List.nil_append, idle rest cut] at run
      obtain ⟨rfl, left⟩ := Prod.mk.inj (Except.ok.inj run)
      obtain rfl : [] = mid := List.append_cancel_right left
      exact idle' rest' cut'
    | cons l ls => exact h.resumes cut cut' (Nat.le_add_left 1 _) after run

/-- A parser that takes some of the next two tokens if they pass a test, which no cut passes in the
second place. -/
theorem Steady.of_two {p : Parser Bool} {test : Token → Token → Bool} {k : Nat} (few : k ≤ 2)
    (runs : ∀ ls, p ls = .ok (if test (ahead (ls.map Lexeme.token))
      (ahead (ls.tail.map Lexeme.token)) then (true, ls.drop k) else (false, ls)))
    (consumes : Consumes p) (second : ∀ t u, u.cuts = true → test t u = false) :
    Steady 1 n p p where
  consumes := consumes
  consumes' := consumes
  resumes {ls mid rest rest' took} cut cut' before _ run := by
    rw [runs] at run ⊢
    have same : test (ahead ((ls ++ rest').map Lexeme.token))
          (ahead ((ls ++ rest').tail.map Lexeme.token))
        = test (ahead ((ls ++ rest).map Lexeme.token))
          (ahead ((ls ++ rest).tail.map Lexeme.token)) := by
      match ls with
      | [] => cases before
      | [l] => exact (second l.token _ cut').trans (second l.token _ cut).symm
      | l :: l' :: ls => rfl
    rw [same]
    split at run
    · rename_i passes
      -- the second token passed, so both tokens stand before the cut
      have two : 2 ≤ ls.length := by
        match ls with
        | [] => cases before
        | [l] => exact absurd (passes.symm.trans (second l.token _ cut)) Bool.noConfusion
        | l :: l' :: ls => exact Nat.le_add_left 2 _
      obtain ⟨rfl, left⟩ := Prod.mk.inj (Except.ok.inj run)
      have kept (rest : List Lexeme) : (ls ++ rest).drop k = ls.drop k ++ rest :=
        List.drop_append_of_le_length (Nat.le_trans few two)
      rw [kept] at left
      rw [if_pos passes, kept, List.append_cancel_right left]
    · rename_i fails
      obtain ⟨rfl, left⟩ := Prod.mk.inj (Except.ok.inj run)
      rw [if_neg fails, List.append_cancel_right left]

/-! ## Parsers that always take a token -/

/-- What the parser leaves is less than what it was given. -/
def Shortens (p : Parser α) : Prop :=
  ∀ ls a rest, p ls = .ok (a, rest) → rest.length < ls.length

theorem Shortens.bind {f : α → Parser β} (h : Shortens p) (h' : ∀ a, Consumes (f a)) :
    Shortens (p >>= f) := by
  intro ls b rest run
  obtain ⟨a, mid, first, second⟩ := bind_eq_ok.1 run
  exact Nat.lt_of_le_of_lt ((h' a).length_le second) (h ls a mid first)

theorem Consumes.bind_shortens {f : α → Parser β} (h : Consumes p) (h' : ∀ a, Shortens (f a)) :
    Shortens (p >>= f) := by
  intro ls b rest run
  obtain ⟨a, mid, first, second⟩ := bind_eq_ok.1 run
  exact Nat.lt_of_lt_of_le (h' a mid b rest second) (h.length_le first)

theorem Shortens.ite {c : Prop} [Decidable c] (h : Shortens p) (h' : Shortens q) :
    Shortens (if c then p else q) := by
  split <;> assumption

theorem length_of_ahead {test : Token → Bool} {ls : List Lexeme} (other : test .ending = false)
    (there : test (ahead (ls.map Lexeme.token)) = true) : ls.tail.length < ls.length := by
  cases ls with
  | nil =>
    rw [show ahead ([].map Lexeme.token) = .ending from rfl, other] at there
    cases there
  | cons l ls => exact Nat.lt_succ_self _

/-- A token that is expected is taken, unless it is the end that is expected. -/
theorem shortens_expect {test : Token → Bool} (other : test .ending = false) (expected : String) :
    Shortens (do if !(← Parser.takeIf test) then Parser.unexpected expected) := by
  intro ls u rest run
  obtain ⟨there, rfl⟩ := expect_ok run
  exact length_of_ahead other there

theorem shortens_expectSymbol (s : Symbol) : Shortens (Parser.expectSymbol s) :=
  shortens_expect rfl _

theorem shortens_expectKeyword (k : Keyword) : Shortens (Parser.expectKeyword k) :=
  shortens_expect rfl _

/-- A parser that takes a token does not start at a cut that it leaves. -/
theorem Steady.of_shortens (h : Steady 1 n p p') (shortens : Shortens p) : Steady m n p p' where
  consumes := h.consumes
  consumes' := h.consumes'
  resumes {ls mid rest rest' a} cut cut' _ after run := by
    have shorter := shortens _ _ _ run
    rw [List.length_append, List.length_append] at shorter
    exact h.resumes cut cut' (by omega) after run

/-- A second parser that takes a token. -/
theorem Steady.bind_shortens (h : Steady m 1 p p') (h' : ∀ a, Steady 0 0 (f a) (f' a))
    (shortens : ∀ a, Shortens (f a)) : Steady m n (p >>= f) (p' >>= f') where
  consumes := h.consumes.bind fun a => (h' a).consumes
  consumes' := h.consumes'.bind fun a => (h' a).consumes'
  resumes {ls mid rest rest' b} cut cut' before _ run := by
    obtain ⟨a, s, first, second⟩ := bind_eq_ok.1 run
    obtain ⟨taken, rfl⟩ := (h' a).consumes.leaves second
    have shorter := shortens a _ _ _ second
    simp only [List.length_append] at shorter
    rw [← List.append_assoc] at first second
    have left : 1 ≤ (taken ++ mid).length := by
      rw [List.length_append]
      omega
    rw [run_bind (h.resumes cut cut' before left first)]
    exact (h' a).resumes cut cut' (Nat.zero_le _) (Nat.zero_le _) second

theorem Steady.inParens (h : Steady 0 1 p p') :
    Steady m n (Parser.inParens p) (Parser.inParens p') := by
  refine (steady_expectSymbol rfl).bind fun _ => h.bind_shortens (fun a => ?_) fun a => ?_
  · exact (steady_expectSymbol rfl).bind fun _ => .pure a
  · exact (shortens_expectSymbol _).bind fun _ => .pure a

theorem Steady.afterKeyword {k : Keyword} (other : (Token.keyword k).cuts = false)
    (h : Steady 0 n p p') :
    Steady m n (Parser.afterKeyword? k p) (Parser.afterKeyword? k p') :=
  (steady_takeKeyword other).bind fun _ => .ite (h.bind fun _ => .pure _) (.pure _)

/-! ## Loops -/

/-- A bound of at least the number of lexemes does not show. -/
def Settles (f : Nat → Parser α) : Prop :=
  ∀ k k' ls, ls.length ≤ k → ls.length ≤ k' → f k ls = f k' ls

theorem bind_congr_left {f : α → Parser β} {ls : List Lexeme} (h : p ls = q ls) :
    (p >>= f) ls = (q >>= f) ls := by
  show Except.bind (p ls) _ = Except.bind (q ls) _
  rw [h]

/-- Runs in turn are alike if the second parsers are on what the first one leaves. -/
theorem bind_congr_run {f f' : α → Parser β} {ls : List Lexeme}
    (h : ∀ a rest, p ls = .ok (a, rest) → f a rest = f' a rest) :
    (p >>= f) ls = (p >>= f') ls := by
  show Except.bind (p ls) _ = Except.bind (p ls) _
  cases run : p ls with
  | error e => rfl
  | ok result => exact h _ _ run

theorem Settles.bind {f : Nat → Parser α} {g : α → Parser β} (h : Settles f) :
    Settles fun k => f k >>= g :=
  fun k k' ls hk hk' => bind_congr_left (h k k' ls hk hk')

/-- Loops that go on with less than they were given, and stop where nothing is left. -/
theorem Settles.of_step {f : Nat → α → Parser β} (nothing : ∀ k a, f k a [] = f 0 a [])
    (step : ∀ k k' a ls, (∀ b rest, rest.length < ls.length → f k b rest = f k' b rest) →
      f (k + 1) a ls = f (k' + 1) a ls) (a : α) : Settles fun k => f k a := by
  intro k
  induction k generalizing a with
  | zero =>
    intro k' ls hk _
    rw [List.length_eq_zero_iff.1 (Nat.le_zero.1 hk)]
    exact (nothing k' a).symm
  | succ k ih =>
    intro k' ls hk hk'
    cases k' with
    | zero =>
      rw [List.length_eq_zero_iff.1 (Nat.le_zero.1 hk')]
      exact nothing (k + 1) a
    | succ k' => exact step k k' a ls fun b rest shorter => ih b k' rest (by omega) (by omega)

/-- A loop that has as many rounds as there are lexemes is steady if it is for every bound. -/
theorem Steady.bind_remaining {f f' : Nat → Parser β} (settles : Settles f) (settles' : Settles f')
    (h : ∀ k, Steady m n (f k) (f' k)) :
    Steady m n (Parser.remaining >>= f) (Parser.remaining >>= f') where
  consumes := consumes_remaining.bind fun k => (h k).consumes
  consumes' := consumes_remaining.bind fun k => (h k).consumes'
  resumes {ls mid rest rest' b} cut cut' before after run := by
    have counted (ls : List Lexeme) : Parser.remaining ls = .ok (ls.length, ls) := rfl
    rw [run_bind (counted _)] at run ⊢
    have enough := Nat.le_max_left (ls ++ rest).length (ls ++ rest').length
    have enough' := Nat.le_max_right (ls ++ rest).length (ls ++ rest').length
    rw [settles _ _ _ (Nat.le_refl _) enough] at run
    rw [settles' _ _ _ (Nat.le_refl _) enough']
    exact (h _).resumes cut cut' before after run

section

variable {separator : Symbol} {operator? : Parser (Option (α → α → α))}

theorem settles_itemsAfter (separator : Symbol) (h : Consumes p) :
    Settles (Parser.itemsAfter separator p) := by
  refine Settles.of_step (f := fun k (_ : Unit) => Parser.itemsAfter separator p k)
    (fun k _ => by cases k <;> rfl) (fun k k' _ ls ih => ?_) ()
  refine bind_congr_run fun took rest run => ?_
  obtain ⟨there, rfl⟩ := takeIf_eq_ok.1 run
  cases took with
  | false => rfl
  | true =>
    have taken : ls.tail.length < ls.length := length_of_ahead rfl there.symm
    refine bind_congr_run fun x rest run => bind_congr_left (ih () rest ?_)
    exact Nat.lt_of_le_of_lt (h.length_le run) taken

theorem Steady.itemsAfter (other : (Token.symbol separator).cuts = false) (h : Steady 0 0 p p')
    (k : Nat) :
    Steady m n (Parser.itemsAfter separator p k) (Parser.itemsAfter separator p' k) := by
  refine Steady.any ?_
  induction k with
  | zero => exact .pure _
  | succ k ih =>
    exact (steady_takeSymbol other).bind fun _ =>
      .ite (h.bind fun _ => ih.bind fun _ => .pure _) (.pure _)

theorem Steady.separatedBy (other : (Token.symbol separator).cuts = false) (h : Steady 0 0 p p') :
    Steady m n (Parser.separatedBy separator p) (Parser.separatedBy separator p') := by
  refine Steady.any (h.bind fun _ => .bind_remaining ?_ ?_ fun k =>
    (h.itemsAfter other k).bind fun _ => .pure _)
  · exact (settles_itemsAfter separator h.consumes).bind
  · exact (settles_itemsAfter separator h.consumes').bind

theorem takeOperator_nothing {op? : Token → Option α} (other : op? .ending = none) :
    Parser.takeOperator? op? [] = .ok (none, []) := by
  rw [Parser.takeOperator?, run_bind (peek_eq []), show ahead ([].map Lexeme.token) = .ending from rfl,
    other]
  rfl

/-- An operator that is found is taken. -/
theorem length_of_takeOperator {op? : Token → Option α} {op : α} {ls rest : List Lexeme}
    (other : op? .ending = none) (run : Parser.takeOperator? op? ls = .ok (some op, rest)) :
    rest.length < ls.length := by
  rw [Parser.takeOperator?, run_bind (peek_eq _)] at run
  cases found : op? (ahead (ls.map Lexeme.token)) with
  | none =>
    rw [found] at run
    cases run
  | some op =>
    rw [found] at run
    cases run
    cases ls with
    | nil => cases found.symm.trans other
    | cons l ls => exact Nat.lt_succ_self _

/-- An operator that is found takes a token, and none is found at a cut. -/
structure SteadyOperator (operator? : Parser (Option (α → α → α))) : Prop where
  nothing : operator? [] = .ok (none, [])
  shortens : ∀ ls combine rest, operator? ls = .ok (some combine, rest) → rest.length < ls.length
  steady : Steady 0 0 operator? operator?

theorem steadyOperator_token {op? : Token → Option (α → α → α)}
    (other : ∀ t, t.cuts = true → op? t = none) : SteadyOperator (Parser.takeOperator? op?) where
  nothing := takeOperator_nothing (other _ rfl)
  shortens _ _ _ run := length_of_takeOperator (other _ rfl) run
  steady := steady_takeOperator other

theorem settles_chainFrom (h : Consumes p) (operates : SteadyOperator operator?) (left : α) :
    Settles fun k => Parser.chainFrom p operator? k left := by
  refine Settles.of_step (fun k left => ?_) (fun k k' left ls ih => ?_) left
  · cases k with
    | zero => rfl
    | succ k => exact run_bind operates.nothing
  · refine bind_congr_run fun op? rest run => ?_
    cases op? with
    | none => rfl
    | some combine =>
      refine bind_congr_run fun right rest' run' => ih _ _ ?_
      exact Nat.lt_of_le_of_lt (h.length_le run') (operates.shortens _ _ _ run)

theorem Steady.chainFrom (h : Steady 0 0 p p') (operates : SteadyOperator operator?) (k : Nat)
    (left : α) :
    Steady 0 0 (Parser.chainFrom p operator? k left) (Parser.chainFrom p' operator? k left) := by
  induction k generalizing left with
  | zero => exact .pure _
  | succ k ih =>
    refine operates.steady.bind fun op? => ?_
    cases op? with
    | none => exact .pure _
    | some combine => exact h.bind fun _ => ih _

theorem Steady.chain (h : Steady 0 0 p p') (operates : SteadyOperator operator?) :
    Steady m n (Parser.chain p operator?) (Parser.chain p' operator?) := by
  refine Steady.any (h.bind fun left => .bind_remaining ?_ ?_ fun k => h.chainFrom operates k left)
  · exact settles_chainFrom h.consumes operates left
  · exact settles_chainFrom h.consumes' operates left

end

end

end TableQuery.Language
