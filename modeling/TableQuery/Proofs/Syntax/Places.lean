import TableQuery.Proofs.Syntax.Steady

/-!
# Places in a text

A parser that stands at a place in a list of tokens moves on by taking tokens, none of which is the
end of the text. Two parsers are compared here on a set of places that no such move leaves: they are
alike if they do the same there and go to places ahead only. What a parser calls after it has taken
a token need only be alike on the later places of the set.
-/

namespace TableQuery.Language

open Language.Grammar

/-- The second list is what is left of the first one after some tokens, none of them the end. -/
inductive Reaches : List Lexeme → List Lexeme → Prop
  | here (ls : List Lexeme) : Reaches ls ls
  | take {l : Lexeme} {ls rest : List Lexeme} (more : l.token ≠ .ending) :
    Reaches ls rest → Reaches (l :: ls) rest

/-- The second list is what is left of the first one after at least one token. -/
def Later (ls rest : List Lexeme) : Prop :=
  ahead (ls.map Lexeme.token) ≠ .ending ∧ Reaches ls.tail rest

section

variable {ls mid rest : List Lexeme}

theorem Reaches.trans (h : Reaches ls mid) (h' : Reaches mid rest) : Reaches ls rest := by
  induction h with
  | here => exact h'
  | take more _ ih => exact .take more (ih h')

theorem Reaches.suffix (h : Reaches ls rest) : rest <:+ ls := by
  induction h with
  | here => exact List.suffix_rfl
  | take _ _ ih => exact ih.trans (List.suffix_cons _ _)

theorem later_tail (h : ahead (ls.map Lexeme.token) ≠ .ending) : Later ls ls.tail :=
  ⟨h, .here _⟩

theorem Later.reaches (h : Later ls rest) : Reaches ls rest := by
  obtain ⟨more, reaches⟩ := h
  cases ls with
  | nil => exact absurd rfl more
  | cons l ls => exact .take more reaches

theorem Later.trans_reaches (h : Later ls mid) (h' : Reaches mid rest) : Later ls rest :=
  ⟨h.1, h.2.trans h'⟩

theorem Reaches.eq_or_later (h : Reaches ls rest) : ls = rest ∨ Later ls rest := by
  cases h with
  | here => exact .inl rfl
  | take more reaches => exact .inr ⟨more, reaches⟩

theorem Reaches.trans_later (h : Reaches ls mid) (h' : Later mid rest) : Later ls rest := by
  obtain rfl | later := h.eq_or_later
  · exact h'
  · exact later.trans_reaches h'.reaches

end

theorem Later.length_lt {ls rest : List Lexeme} (h : Later ls rest) : rest.length < ls.length := by
  obtain ⟨more, reaches⟩ := h
  cases ls with
  | nil => exact absurd rfl more
  | cons l ls => exact Nat.lt_succ_of_le reaches.suffix.length_le

/-- How many tokens stand before the end of the text. -/
def tokensLeft : List Lexeme → Nat
  | [] => 0
  | l :: ls => if l.token = .ending then 0 else tokensLeft ls + 1

theorem tokensLeft_le_length (ls : List Lexeme) : tokensLeft ls ≤ ls.length := by
  induction ls with
  | nil => exact Nat.le_refl 0
  | cons l ls ih =>
    rw [tokensLeft]
    split
    · exact Nat.zero_le _
    · exact Nat.succ_le_succ ih

theorem Reaches.tokensLeft_le {ls rest : List Lexeme} (h : Reaches ls rest) :
    tokensLeft rest ≤ tokensLeft ls := by
  induction h with
  | here => exact Nat.le_refl _
  | take more _ ih =>
    rw [tokensLeft, if_neg more]
    exact Nat.le_succ_of_le ih

theorem Later.tokensLeft_lt {ls rest : List Lexeme} (h : Later ls rest) :
    tokensLeft rest < tokensLeft ls := by
  obtain ⟨more, reaches⟩ := h
  cases ls with
  | nil => exact absurd rfl more
  | cons l ls =>
    have first : tokensLeft (l :: ls) = tokensLeft ls + 1 := if_neg more
    rw [first]
    exact Nat.lt_succ_of_le reaches.tokensLeft_le

/-! ## Sets of places -/

/-- A set of places that is not left by taking tokens. -/
structure Places where
  holds : List Lexeme → Prop
  ahead : ∀ {ls rest}, holds ls → Reaches ls rest → holds rest

/-- The places that are reached from those of the set by a token or more. -/
def Places.later (S : Places) : Places where
  holds rest := ∃ ls, S.holds ls ∧ Later ls rest
  ahead := fun ⟨ls, here, later⟩ reaches => ⟨ls, here, later.trans_reaches reaches⟩

/-- The places with fewer than `n` tokens before the end. -/
def Places.fewer (n : Nat) : Places where
  holds ls := tokensLeft ls < n
  ahead few reaches := Nat.lt_of_le_of_lt reaches.tokensLeft_le few

/-- A place and those that are reached from it. -/
def Places.startingAt (ls : List Lexeme) : Places where
  holds := Reaches ls
  ahead := Reaches.trans

/-- The one set of places is part of the other. -/
def Places.Within (S T : Places) : Prop :=
  ∀ ls, S.holds ls → T.holds ls

theorem Places.later_within (S : Places) : S.later.Within S :=
  fun _ ⟨_, here, later⟩ => S.ahead here later.reaches

theorem Places.later_fewer (n : Nat) : (fewer (n + 1)).later.Within (fewer n) :=
  fun _ ⟨_, few, later⟩ => Nat.lt_of_lt_of_le later.tokensLeft_lt (Nat.le_of_lt_succ few)

theorem Places.later_startingAt {ls rest : List Lexeme} (h : (startingAt ls).later.holds rest) :
    Later ls rest := by
  obtain ⟨mid, reaches, later⟩ := h
  exact reaches.trans_later later

/-! ## Parsers that are alike -/

/-- On the places of the set both parsers do the same, and they go to places ahead only. -/
structure Alike {α : Type} (S : Places) (p p' : Parser α) : Prop where
  same : ∀ ls, S.holds ls → p ls = p' ls
  reaches : ∀ ls a rest, S.holds ls → p ls = .ok (a, rest) → Reaches ls rest

/-- The parsers are alike on the places of the set where a certain token comes next. -/
structure AlikeAt {α : Type} (S : Places) (t : Token) (p p' : Parser α) : Prop where
  same : ∀ ls, S.holds ls → ahead (ls.map Lexeme.token) = t → p ls = p' ls
  reaches : ∀ ls a rest, S.holds ls → ahead (ls.map Lexeme.token) = t → p ls = .ok (a, rest) →
    Reaches ls rest

section

variable {α β : Type} {S T : Places} {p p' q q' : Parser α} {f f' : α → Parser β} {t : Token}

theorem Alike.mono (h : Alike T p p') (within : S.Within T) : Alike S p p' where
  same ls here := h.same ls (within ls here)
  reaches ls a rest here := h.reaches ls a rest (within ls here)

theorem Alike.later (h : Alike S p p') : Alike S.later p p' :=
  h.mono S.later_within

theorem Alike.at (h : Alike S p p') : AlikeAt S t p p' where
  same ls here _ := h.same ls here
  reaches ls a rest here _ := h.reaches ls a rest here

/-! ## Running in turn -/

theorem Alike.bind (h : Alike S p p') (h' : ∀ a, Alike S (f a) (f' a)) :
    Alike S (p >>= f) (p' >>= f') where
  same ls here := by
    rw [← bind_congr_left (h.same ls here)]
    exact bind_congr_run fun a mid run =>
      (h' a).same mid (S.ahead here (h.reaches ls a mid here run))
  reaches ls b rest here run := by
    obtain ⟨a, mid, first, second⟩ := bind_eq_ok.1 run
    have moved := h.reaches ls a mid here first
    exact moved.trans ((h' a).reaches mid b rest (S.ahead here moved) second)

theorem Alike.pure (a : α) : Alike S (Pure.pure a) (Pure.pure a) where
  same _ _ := rfl
  reaches ls b rest _ run := by
    rw [(pure_eq_ok.1 run).2]
    exact .here rest

theorem Alike.map {g : α → β} (h : Alike S p p') : Alike S (g <$> p) (g <$> p') := by
  rw [← bind_pure_comp, ← bind_pure_comp]
  exact h.bind fun _ => .pure _

theorem Alike.ite {c : Prop} [Decidable c] (h : Alike S p p') (h' : Alike S q q') :
    Alike S (if c then p else q) (if c then p' else q') := by
  split <;> assumption

theorem alike_unexpected (expected : String) :
    Alike S (Parser.unexpected expected : Parser α) (Parser.unexpected expected) where
  same _ _ := rfl
  reaches _ _ _ _ run := absurd run unexpected_ne_ok

/-- A parser that looks at the tokens and takes none. -/
theorem alike_look {view : List Lexeme → α} (seen : ∀ ls, p ls = .ok (view ls, ls)) :
    Alike S p p where
  same _ _ := rfl
  reaches ls a rest _ run := by
    rw [seen ls] at run
    cases run
    exact .here ls

theorem Alike.bind_remaining {f f' : Nat → Parser β} (h : ∀ n, Alike S (f n) (f' n)) :
    Alike S (Parser.remaining >>= f) (Parser.remaining >>= f') :=
  Alike.bind (alike_look fun _ => rfl) h

theorem Alike.bind_atSymbol {s : Symbol} {f f' : Bool → Parser β} (h : ∀ b, Alike S (f b) (f' b)) :
    Alike S (Parser.atSymbol s >>= f) (Parser.atSymbol s >>= f') :=
  Alike.bind (alike_look (atSymbol_eq s)) h

theorem Alike.bind_atKeyword {k : Keyword} {f f' : Bool → Parser β}
    (h : ∀ b, Alike S (f b) (f' b)) :
    Alike S (Parser.atKeyword k >>= f) (Parser.atKeyword k >>= f') :=
  Alike.bind (alike_look fun _ => rfl) h

theorem Alike.bind_atQuery {f f' : Bool → Parser β} (h : ∀ b, Alike S (f b) (f' b)) :
    Alike S (Parser.atQuery >>= f) (Parser.atQuery >>= f') :=
  Alike.bind (alike_look fun _ => rfl) h

/-! ## Single tokens -/

/-- A parser that looks at the next token, and then perhaps takes it. -/
theorem Alike.bind_peek {f f' : Token → Parser β} (h : ∀ t, AlikeAt S t (f t) (f' t)) :
    Alike S (Parser.peek >>= f) (Parser.peek >>= f') where
  same ls here := by
    rw [run_bind (peek_eq ls), run_bind (peek_eq ls)]
    exact (h _).same ls here rfl
  reaches ls b rest here run := by
    rw [run_bind (peek_eq ls)] at run
    exact (h _).reaches ls b rest here rfl run

/-- Behind a token that is taken, later places are left. -/
theorem AlikeAt.advance {f f' : Unit → Parser β} (more : t ≠ .ending)
    (h : Alike S.later (f ()) (f' ())) :
    AlikeAt S t (Parser.advance >>= f) (Parser.advance >>= f') where
  same ls here next := by
    have later := @later_tail ls (by rwa [next])
    exact h.same ls.tail ⟨ls, here, later⟩
  reaches ls b rest here next run := by
    have later := @later_tail ls (by rwa [next])
    exact later.reaches.trans (h.reaches ls.tail b rest ⟨ls, here, later⟩ run)

/-- A parser that looks at the tokens once more. -/
theorem AlikeAt.bind_look {view : List Lexeme → α} (seen : ∀ ls, p ls = .ok (view ls, ls))
    (h : ∀ a, AlikeAt S t (f a) (f' a)) : AlikeAt S t (p >>= f) (p >>= f') where
  same ls here next := by
    rw [run_bind (seen ls), run_bind (seen ls)]
    exact (h _).same ls here next
  reaches ls b rest here next run := by
    rw [run_bind (seen ls)] at run
    exact (h _).reaches ls b rest here next run

/-- What passes a test that the end of the text does not pass is a token. -/
theorem later_of_test {test : Token → Bool} {ls : List Lexeme} (other : test .ending = false)
    (passes : test (ahead (ls.map Lexeme.token)) = true) : Later ls ls.tail := by
  refine later_tail fun ending => ?_
  rw [ending, other] at passes
  cases passes

/-- A parser that takes the next token if it passes a test. -/
theorem Alike.bind_takeIf {test : Token → Bool} {f f' : Bool → Parser β}
    (other : test .ending = false) (taken : Alike S.later (f true) (f' true))
    (kept : Alike S (f false) (f' false)) :
    Alike S (Parser.takeIf test >>= f) (Parser.takeIf test >>= f') where
  same ls here := by
    rw [run_bind (takeIf_eq_ok.2 ⟨rfl, rfl⟩), run_bind (takeIf_eq_ok.2 ⟨rfl, rfl⟩)]
    cases passes : test (ahead (ls.map Lexeme.token)) with
    | true => exact taken.same ls.tail ⟨ls, here, later_of_test other passes⟩
    | false => exact kept.same ls here
  reaches ls b rest here run := by
    rw [run_bind (takeIf_eq_ok.2 ⟨rfl, rfl⟩)] at run
    cases passes : test (ahead (ls.map Lexeme.token)) with
    | true =>
      have later := later_of_test other passes
      rw [passes] at run
      exact later.reaches.trans (taken.reaches ls.tail b rest ⟨ls, here, later⟩ run)
    | false =>
      rw [passes] at run
      exact kept.reaches ls b rest here run

theorem alike_takeIf {test : Token → Bool} (other : test .ending = false) :
    Alike S (Parser.takeIf test) (Parser.takeIf test) := by
  rw [← bind_pure (Parser.takeIf test)]
  exact .bind_takeIf other (.pure true) (.pure false)

/-- Nothing is done behind a failure. -/
theorem Alike.bind_unexpected (expected : String) :
    Alike S (Parser.unexpected expected >>= f) (Parser.unexpected expected >>= f') where
  same ls _ := by cases ls <;> rfl
  reaches ls b rest _ run := by
    obtain ⟨_, _, first, -⟩ := bind_eq_ok.1 run
    exact absurd first unexpected_ne_ok

/-- A parser that goes on only where it takes a token. -/
theorem Alike.bind_expect {test : Token → Bool} {expected : String} {f f' : Unit → Parser β}
    (other : test .ending = false) (h : Alike S.later (f ()) (f' ())) :
    Alike S ((do if !(← Parser.takeIf test) then Parser.unexpected expected) >>= f)
      ((do if !(← Parser.takeIf test) then Parser.unexpected expected) >>= f') := by
  rw [bind_assoc, bind_assoc]
  refine .bind_takeIf other ?_ (.bind_unexpected expected)
  exact Alike.bind (.pure ()) fun _ => h

theorem Alike.bind_expectKeyword {k : Keyword} {f f' : Unit → Parser β}
    (h : Alike S.later (f ()) (f' ())) :
    Alike S (Parser.expectKeyword k >>= f) (Parser.expectKeyword k >>= f') :=
  .bind_expect rfl h

theorem Alike.bind_expectSymbol {s : Symbol} {f f' : Unit → Parser β}
    (h : Alike S.later (f ()) (f' ())) :
    Alike S (Parser.expectSymbol s >>= f) (Parser.expectSymbol s >>= f') :=
  .bind_expect rfl h

theorem alike_takeName : Alike S Parser.takeName? Parser.takeName? := by
  refine .bind_peek fun t => ?_
  cases name : t.name? with
  | some name => exact .advance (by rintro rfl; cases name) (.pure _)
  | none => exact (Alike.pure _).at

theorem alike_expectName (what : String) :
    Alike S (Parser.expectName what) (Parser.expectName what) := by
  refine alike_takeName.bind fun name? => ?_
  cases name? with
  | some name => exact .pure _
  | none => exact alike_unexpected _

theorem alike_takeAlias (what : String) :
    Alike S (Parser.takeAlias? what) (Parser.takeAlias? what) :=
  .bind_takeIf rfl ((alike_expectName what).bind fun _ => .pure _) alike_takeName

/-! ## Operators -/

/-- A parser that takes a token or more for each operator that it finds. -/
structure Operates (operator? : Parser (Option α)) : Prop where
  taken : ∀ ls op rest, operator? ls = .ok (some op, rest) → Later ls rest
  kept : ∀ ls rest, operator? ls = .ok (none, rest) → Reaches ls rest

theorem Alike.bind_operator {operator? : Parser (Option α)} {f f' : Option α → Parser β}
    (operates : Operates operator?) (taken : ∀ op, Alike S.later (f (some op)) (f' (some op)))
    (kept : Alike S (f none) (f' none)) : Alike S (operator? >>= f) (operator? >>= f') where
  same ls here := by
    refine bind_congr_run fun op? mid run => ?_
    cases op? with
    | some op => exact (taken op).same mid ⟨ls, here, operates.taken ls op mid run⟩
    | none => exact kept.same mid (S.ahead here (operates.kept ls mid run))
  reaches ls b rest here run := by
    obtain ⟨op?, mid, first, second⟩ := bind_eq_ok.1 run
    cases op? with
    | some op =>
      have later := operates.taken ls op mid first
      exact later.reaches.trans ((taken op).reaches mid b rest ⟨ls, here, later⟩ second)
    | none =>
      have reaches := operates.kept ls mid first
      exact reaches.trans (kept.reaches mid b rest (S.ahead here reaches) second)

theorem operates_takeOperator {op? : Token → Option α} (other : op? .ending = none) :
    Operates (Parser.takeOperator? op?) where
  taken ls op rest run := by
    rw [Parser.takeOperator?, run_bind (peek_eq _)] at run
    cases found : op? (ahead (ls.map Lexeme.token)) with
    | none =>
      rw [found] at run
      cases run
    | some op =>
      rw [found] at run
      cases run
      exact later_tail fun ending => by
        rw [ending, other] at found
        cases found
  kept ls rest run := by
    rw [Parser.takeOperator?, run_bind (peek_eq _)] at run
    cases found : op? (ahead (ls.map Lexeme.token)) with
    | none =>
      rw [found] at run
      cases run
      exact .here ls
    | some op =>
      rw [found] at run
      cases run

theorem alike_takeOperator {op? : Token → Option α} (other : op? .ending = none) :
    Alike S (Parser.takeOperator? op?) (Parser.takeOperator? op?) := by
  rw [← bind_pure (Parser.takeOperator? op?)]
  exact .bind_operator (operates_takeOperator other) (fun _ => .pure _) (.pure _)

/-! ## Combinators -/

theorem Alike.inParens (h : Alike S.later p p') :
    Alike S (Parser.inParens p) (Parser.inParens p') :=
  .bind_expectSymbol (h.bind fun _ => .bind_expectSymbol (.pure _))

theorem Alike.afterKeyword {k : Keyword} (h : Alike S.later p p') :
    Alike S (Parser.afterKeyword? k p) (Parser.afterKeyword? k p') :=
  .bind_takeIf rfl (h.bind fun _ => .pure _) (.pure _)

theorem Alike.itemsAfter {separator : Symbol} (h : Alike S.later p p') (bound : Nat) :
    Alike S (Parser.itemsAfter separator p bound) (Parser.itemsAfter separator p' bound) := by
  induction bound generalizing S with
  | zero => exact .pure _
  | succ bound ih =>
    exact .bind_takeIf rfl (h.bind fun _ => (ih h.later).bind fun _ => .pure _) (.pure _)

theorem Alike.separatedBy {separator : Symbol} (h : Alike S p p') :
    Alike S (Parser.separatedBy separator p) (Parser.separatedBy separator p') :=
  h.bind fun _ => .bind_remaining fun n => (h.later.itemsAfter n).bind fun _ => .pure _

theorem Alike.chainFrom {operator? : Parser (Option (α → α → α))} (operates : Operates operator?)
    (h : Alike S.later p p') (bound : Nat) (left : α) :
    Alike S (Parser.chainFrom p operator? bound left)
      (Parser.chainFrom p' operator? bound left) := by
  induction bound generalizing S left with
  | zero => exact .pure _
  | succ bound ih =>
    exact .bind_operator operates (fun combine => h.bind fun _ => ih h.later _) (.pure _)

theorem Alike.chain {operator? : Parser (Option (α → α → α))} (operates : Operates operator?)
    (h : Alike S p p') : Alike S (Parser.chain p operator?) (Parser.chain p' operator?) :=
  h.bind fun left => .bind_remaining fun n => .chainFrom operates h.later n left

theorem alike_columnNames : Alike S Parser.columnNames Parser.columnNames :=
  .inParens (.separatedBy (alike_expectName _))

end

end TableQuery.Language
