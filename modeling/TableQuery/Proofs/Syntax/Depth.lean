import Mathlib.Logic.Function.Iterate
import TableQuery.Proofs.Syntax.Routines

/-!
# The depth of calls

The grammars of all depths have a limit, since a nested part stands behind a token of what contains
it. The routines of the limit are the only solution of the recursion, and calls of routines are
nested ten levels deep for each token at most.
-/

namespace TableQuery.Language

open Language.Grammar

/-! ## The routines of a grammar -/

/-- The routines whose expressions, queries and sources are those of `top`, while `g` has the ones
that are nested in these. -/
def Grammar.routinesBelow (top g : Grammar) : Routines
  | .expression => top.expression
  | .disjunction => g.disjunction
  | .conjunction => g.conjunction
  | .negation => g.negation
  | .comparison => g.comparison
  | .concatenation => g.concatenation
  | .sum => g.sum
  | .term => g.term
  | .unary => g.unary
  | .primary => g.primary
  | .query => top.query
  | .body => g.body
  | .intersection => Parser.chain g.bodyPrimary (takeSetOp? intersectOp?)
  | .bodyPrimary => g.bodyPrimary
  | .selectBody => g.selectBody
  | .source => top.source
  | .sourcePrimary => g.sourcePrimary

/-- The routines of a grammar. -/
def Grammar.routines (g : Grammar) : Routines :=
  g.routinesBelow g

section

variable {g g' : Grammar}

theorem Grammar.unary_eq (g : Grammar) : g.unary = Routines.signed g.unary g.primary := by
  funext ls
  rw [Routines.signed, run_bind (peek_eq ls)]
  fun_cases g.unary ls with
  | case1 | case2 | case4 => rfl
  | case3 p rest notInteger notFloat =>
    -- a minus sign that joins no number
    rcases rest with _ | ⟨⟨t, q⟩, rest⟩
    · rfl
    · cases t with
      | integer i => exact (notInteger i q rest rfl).elim
      | float f => exact (notFloat f q rest rfl).elim
      | _ => rfl
  | case5 _ _ _ notMinus notPlus =>
    rcases ls with _ | ⟨⟨t, p⟩, rest⟩
    · rfl
    · cases t with
      | symbol s =>
        cases s with
        | minus => exact (notMinus p rest rfl).elim
        | plus => exact (notPlus p rest rfl).elim
        | _ => rfl
      | _ => rfl

theorem Grammar.negation_eq (g : Grammar) :
    g.negation = Routines.negated g.negation g.comparison := by
  funext ls
  rw [Routines.negated, Parser.takeKeyword, run_bind (takeIf_eq_ok.2 ⟨rfl, rfl⟩)]
  fun_cases g.negation ls with
  | case1 => rfl
  | case2 _ notNot =>
    cases negates : (ahead (ls.map Lexeme.token)).isKeyword .not with
    | false => rfl
    | true =>
      rcases ls with _ | ⟨⟨t, p⟩, rest⟩
      · cases negates
      · obtain rfl : t = .keyword .not := Token.isKeyword_iff.1 negates
        exact (notNot p rest rfl).elim

/-- The calls of the routines of a grammar make those of the deeper one. -/
theorem Grammar.calls_routines (g : Grammar) : g.routines.calls = g.deeper.routinesBelow g := by
  funext k
  cases k with
  | negation => exact g.negation_eq.symm
  | unary => exact g.unary_eq.symm
  | _ => rfl

theorem Grammar.routinesBelow_of_first {k k' : Routine} (top : Grammar) (h : k' ∈ k.first?) :
    top.routinesBelow g k' = g.routines k' := by
  cases k <;> cases h <;> rfl

/-! ## Depth -/

variable {S : Places} {n : Nat}

theorem alike_nowhere {α : Type} {p p' : Parser α} : Alike (Places.fewer 0) p p' where
  same _ few := absurd few (Nat.not_lt_zero _)
  reaches _ _ _ few := absurd few (Nat.not_lt_zero _)

/-- Routines that are alike wherever a token was taken are alike. -/
theorem Grammar.alike_routinesBelow
    (later : ∀ k, Alike S.later (g.routines k) (g'.routines k)) (k : Routine) :
    Alike S (g.deeper.routinesBelow g k) (g'.deeper.routinesBelow g' k) := by
  induction k using Routine.descend with
  | step k ih =>
    rw [← calls_routines, ← calls_routines]
    refine Routines.alike_calls later fun k' first => ?_
    rw [← routinesBelow_of_first g.deeper first, ← routinesBelow_of_first g'.deeper first]
    exact ih k' first

theorem Grammar.Like.routines (h : g.Like (.fewer n) g') (k : Routine) :
    Alike (.fewer n) (g.routines k) (g'.routines k) := by
  induction n generalizing k with
  | zero => exact alike_nowhere
  | succ n ih =>
    have below := ih (h.mono fun _ => Nat.lt_succ_of_lt)
    have alike := alike_routinesBelow fun k => (below k).mono (Places.later_fewer n)
    have step := alike k
    cases k with
    | expression => exact h.expression
    | query => exact h.query
    | source => exact h.source
    | _ => exact step

theorem Grammar.Like.deeper (h : g.Like (.fewer n) g') :
    g.deeper.Like (.fewer (n + 1)) g'.deeper := by
  have alike := alike_routinesBelow fun k => (h.routines k).mono (Places.later_fewer n)
  exact ⟨alike .expression, alike .query, alike .source⟩

/-- Whatever stands for parts that are nested deeper than there are tokens, it is not called. -/
theorem Grammar.like_iterate (g g' : Grammar) (n : Nat) :
    (deeper^[n] g).Like (.fewer n) (deeper^[n] g') := by
  induction n with
  | zero => exact ⟨alike_nowhere, alike_nowhere, alike_nowhere⟩
  | succ n ih =>
    rw [Function.iterate_succ_apply', Function.iterate_succ_apply']
    exact ih.deeper

theorem Grammar.like_of_le {d d' : Nat} (h : n ≤ d) (h' : n ≤ d') (g g' : Grammar) :
    (deeper^[d] g).Like (.fewer n) (deeper^[d'] g') := by
  obtain ⟨m, rfl⟩ := Nat.exists_eq_add_of_le h
  obtain ⟨m', rfl⟩ := Nat.exists_eq_add_of_le h'
  rw [Function.iterate_add_apply, Function.iterate_add_apply]
  exact like_iterate _ _ n

theorem Grammar.ofDepth_eq (depth : Nat) : ofDepth depth = deeper^[depth] empty := by
  induction depth with
  | zero => rfl
  | succ depth ih => rw [Function.iterate_succ_apply', ← ih, ofDepth]

end

/-! ## The limit -/

/-- The grammar of what is nested to any depth. -/
def Grammar.whole : Grammar where
  expression ls := (ofDepth (ls.length + 1)).expression ls
  query ls := (ofDepth (ls.length + 1)).query ls
  source ls := (ofDepth (ls.length + 1)).source ls

section

variable {g : Grammar} {n : Nat} {k : Routine} {ls rest : List Lexeme}

/-- A parser that is chosen by the place is alike if each that may be chosen is. -/
theorem alike_of_each {α : Type} {S : Places} {q : List Lexeme → Parser α} {p' : Parser α}
    (h : ∀ ls, S.holds ls → Alike (.fewer (tokensLeft ls + 1)) (q ls) p') :
    Alike S (fun ls => q ls ls) p' where
  same ls here := (h ls here).same ls (Nat.lt_succ_self _)
  reaches ls a rest here run := (h ls here).reaches ls a rest (Nat.lt_succ_self _) run

theorem Grammar.whole_like (g : Grammar) (n : Nat) : whole.Like (.fewer n) (deeper^[n] g) := by
  have deep (ls : List Lexeme) (few : tokensLeft ls < n) :
      (ofDepth (ls.length + 1)).Like (.fewer (tokensLeft ls + 1)) (deeper^[n] g) := by
    rw [ofDepth_eq]
    exact like_of_le (Nat.succ_le_succ (tokensLeft_le_length ls)) few empty g
  have each {α : Type} (entry : Grammar → Parser α) (h : ∀ ls, tokensLeft ls < n →
      Alike (.fewer (tokensLeft ls + 1)) (entry (ofDepth (ls.length + 1))) (entry (deeper^[n] g))) :
      Alike (.fewer n) (fun ls => entry (ofDepth (ls.length + 1)) ls) (entry (deeper^[n] g)) :=
    alike_of_each h
  exact ⟨each Grammar.expression fun ls few => (deep ls few).expression,
    each Grammar.query fun ls few => (deep ls few).query,
    each Grammar.source fun ls few => (deep ls few).source⟩

/-- What stands for parts that are nested deeper than there are tokens does not show. -/
theorem Grammar.iterate_routines (g : Grammar) (k : Routine) (few : tokensLeft ls < n) :
    (deeper^[n] g).routines k ls = whole.routines k ls :=
  (((whole_like g n).routines k).same ls few).symm

theorem Grammar.ofDepth_routines (k : Routine) (few : tokensLeft ls < n) :
    (ofDepth n).routines k ls = whole.routines k ls := by
  rw [ofDepth_eq]
  exact iterate_routines empty k few

theorem Grammar.whole_reaches {a : k.Result} (run : whole.routines k ls = .ok (a, rest)) :
    Reaches ls rest :=
  ((whole_like empty (tokensLeft ls + 1)).routines k).reaches ls a rest (Nat.lt_succ_self _) run

/-- Parsers that are the same wherever fewer tokens than some number are left are the same. -/
theorem eq_of_alike {α : Type} {p p' : Parser α} {q : Nat → Parser α}
    (h : ∀ n, Alike (.fewer n) p (q n)) (h' : ∀ n, Alike (.fewer n) p' (q n)) : p = p' :=
  funext fun ls => ((h _).same ls (Nat.lt_succ_self (tokensLeft ls))).trans
    ((h' _).same ls (Nat.lt_succ_self _)).symm

theorem Grammar.whole_deeper : whole.deeper = whole := by
  have deeper (n : Nat) : whole.deeper.Like (.fewer n) (deeper^[n + 1] empty) := by
    rw [Function.iterate_succ_apply']
    exact (whole_like empty n).deeper.mono fun _ => Nat.lt_succ_of_lt
  have limit (n : Nat) : whole.Like (.fewer n) (Grammar.deeper^[n + 1] empty) :=
    (whole_like empty (n + 1)).mono fun _ => Nat.lt_succ_of_lt
  have expression := eq_of_alike (fun n => (deeper n).expression) fun n => (limit n).expression
  have query := eq_of_alike (fun n => (deeper n).query) fun n => (limit n).query
  have source := eq_of_alike (fun n => (deeper n).source) fun n => (limit n).source
  exact congr (congrArg₂ Grammar.mk expression query) source

/-! ## The recursion -/

theorem Grammar.whole_calls : whole.routines.calls = whole.routines := by
  rw [calls_routines, whole_deeper]
  rfl

/-- Calls that give what the limit does at the places where they are made make what the limit is. -/
theorem Routines.calls_eq_whole {r : Routines}
    (later : ∀ k rest, Later ls rest → r k rest = whole.routines k rest)
    (first : ∀ k' ∈ k.first?, r k' ls = whole.routines k' ls) :
    r.calls k ls = whole.routines k ls := by
  have behind (k : Routine) : Alike (Places.startingAt ls).later (whole.routines k) (r k) :=
    ⟨fun rest there => (later k rest (Places.later_startingAt there)).symm,
      fun _ _ _ _ run => whole_reaches run⟩
  have here (k' : Routine) (h : k' ∈ k.first?) :
      Alike (.startingAt ls) (whole.routines k') (r k') := by
    refine ⟨fun rest there => ?_, fun _ _ _ _ run => whole_reaches run⟩
    obtain rfl | moved := Reaches.eq_or_later there
    · exact (first k' h).symm
    · exact (later k' rest moved).symm
  have alike := alike_calls behind here
  rw [whole_calls] at alike
  exact (alike.same ls (.here ls)).symm

/-- Calls are nested no deeper than this, whatever stands for those that would be. -/
theorem Routines.calls_iterate (r : Routines) (deep : 10 * tokensLeft ls + k.level < n) :
    calls^[n] r k ls = whole.routines k ls := by
  induction n generalizing k ls with
  | zero => exact absurd deep (Nat.not_lt_zero _)
  | succ n ih =>
    rw [Function.iterate_succ_apply']
    refine calls_eq_whole (fun k' rest later => ih ?_) fun k' first => ih ?_
    · have less := later.tokensLeft_lt
      have level := k'.level_le
      omega
    · have level := Routine.level_of_first first
      omega

/-- The recursion has one solution. -/
theorem Routines.calls_eq_iff (r : Routines) : r.calls = r ↔ r = whole.routines := by
  constructor
  · intro solves
    funext k ls
    rw [← calls_iterate r (Nat.lt_succ_self _), Function.iterate_fixed solves]
  · rintro rfl
    exact whole_calls

end

end TableQuery.Language
