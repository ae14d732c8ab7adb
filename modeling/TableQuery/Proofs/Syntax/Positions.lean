import TableQuery.Proofs.Syntax.Consumption
import TableQuery.Proofs.Syntax.Scanning

/-!
# Where tokens and faults stand

Every lexeme stands where its token is read, later than those before it, and the last one is the end
of the text. A syntax error points at the place where no token can be read, or at a lexeme that is
not the one expected, so always into the text or to its end.
-/

namespace TableQuery.Language

open Text Number

/-! ## How far a token reaches -/

theorem commentLength?_le {cs : List Char} {n : Nat} (h : commentLength? cs = some n) :
    n ≤ cs.length := by
  fun_induction commentLength? cs generalizing n with
  | case1 => cases h
  | case2 cs =>
    cases h
    simp
  | case3 c cs _ ih =>
    obtain ⟨m, inner, rfl⟩ := Option.map_eq_some_iff.1 h
    exact Nat.succ_le_succ (ih inner)

theorem readQuoted?_le {quote : Char} {cs s : List Char} {n : Nat}
    (h : readQuoted? quote cs = some (s, n)) : n ≤ cs.length := by
  fun_induction readQuoted? quote cs generalizing s n with
  | case1 => cases h
  | case2 c _ d ds _ ih =>
    obtain ⟨⟨t, m⟩, inner, same⟩ := Option.map_eq_some_iff.1 h
    cases same
    exact Nat.add_le_add_right (ih inner) 2
  | case3 => cases h; simp
  | case4 => cases h; simp
  | case5 c cs _ ih =>
    obtain ⟨⟨t, m⟩, inner, same⟩ := Option.map_eq_some_iff.1 h
    cases same
    exact Nat.succ_le_succ (ih inner)

theorem numberLength_le (fractional : Bool) (cs : List Char) :
    (numberLength fractional cs).1 ≤ cs.length := by
  fun_induction numberLength fractional cs <;> simp_all

theorem readNumber_le {c : Char} {cs : List Char} {t : Token} {n : Nat}
    (h : readNumber c cs = .ok (t, n)) : n ≤ cs.length ∧ t ≠ .ending := by
  have length := numberLength_le (c == '.') cs
  unfold readNumber at h
  dsimp only at h
  split at h
  · cases h
    exact ⟨length, nofun⟩
  · cases h
    exact ⟨length, nofun⟩
  · cases h

theorem wordToken_ne_ending (word : String) : wordToken word ≠ .ending := by
  unfold wordToken
  split <;> nofun

theorem symbolAt?_le {c : Char} {cs : List Char} {s : Symbol} {n : Nat}
    (h : symbolAt? c cs.head? = some (s, n)) : n ≤ cs.length := by
  have next : n ≤ cs.head?.toList.length := by
    unfold symbolAt? at h
    split at h <;> cases h <;> simp_all
  exact Nat.le_trans next (by cases cs <;> simp)

/-- A token ends within the text, and no token is the end of the text. -/
theorem readToken_le {last : Option Char} {c : Char} {cs : List Char} {token? : Option Token}
    {n : Nat} (h : readToken last c cs = .ok (token?, n)) : n ≤ cs.length ∧ token? ≠ some .ending := by
  have ahead (test : Char → Bool) : (cs.takeWhile test).length ≤ cs.length :=
    (List.takeWhile_sublist test).length_le
  revert h
  fun_cases readToken last c cs <;> intro h
  case case1 | case2 =>
    cases h
    exact ⟨ahead _, nofun⟩
  case case3 star m comment =>
    cases h
    have inner := commentLength?_le comment
    -- the star behind the slash is counted, too
    have star : cs ≠ [] := by
      rintro rfl
      rw [List.head?_nil, Bool.and_eq_true] at star
      exact absurd star.2 (by decide)
    rw [List.length_tail] at inner
    have nonempty := List.length_pos_iff.2 star
    exact ⟨by omega, nofun⟩
  case case5 | case7 =>
    cases h
    rename_i read
    exact ⟨readQuoted?_le read, nofun⟩
  case case10 =>
    cases h
    exact ⟨ahead _, nofun⟩
  case case11 =>
    cases read : readNumber c cs with
    | error fault =>
      rw [read] at h
      cases h
    | ok result =>
      rw [read] at h
      cases h
      obtain ⟨length, notEnding⟩ := readNumber_le read
      exact ⟨length, fun same => notEnding (Option.some.inj same)⟩
  case case12 =>
    cases h
    exact ⟨ahead _, fun same => wordToken_ne_ending _ (Option.some.inj same)⟩
  case case13 symbol =>
    cases h
    exact ⟨symbolAt?_le symbol, nofun⟩
  all_goals cases h

/-! ## Lexemes in their text -/

section

variable {text : List Char} {start later : Nat} {l : Lexeme} {ls : List Lexeme} {e : QueryError}

theorem length_of_drop {c : Char} {rest : List Char} (here : text.drop start = c :: rest) :
    text.length = start + rest.length + 1 := by
  have length := congrArg List.length here
  rw [List.length_drop, List.length_cons] at length
  omega

/-- The token of the lexeme is what is read at its position. -/
def Lexeme.StandsIn (text : List Char) (l : Lexeme) : Prop :=
  ∃ c rest n, text.drop l.position = c :: rest ∧
    readToken (text.take l.position).getLast? c rest = .ok (some l.token, n)

theorem Lexeme.StandsIn.position_lt (h : l.StandsIn text) : l.position < text.length := by
  obtain ⟨c, rest, n, here, -⟩ := h
  have length := length_of_drop here
  omega

theorem Lexeme.StandsIn.ne_ending (h : l.StandsIn text) : l.token ≠ .ending := by
  obtain ⟨c, rest, n, -, read⟩ := h
  exact fun same => (readToken_le read).2 (congrArg some same)

/-- The lexemes are those of the text from a place on: each stands where its token is read, later
than those before it, and the last one is the end of the text. -/
structure Faithful (text : List Char) (start : Nat) (ls : List Lexeme) : Prop where
  ordered : ls.Pairwise fun l l' => l.position < l'.position
  behind : ∀ l ∈ ls, start ≤ l.position
  ends : ∃ body, ls = body ++ [⟨.ending, text.length⟩] ∧ ∀ l ∈ body, l.StandsIn text

/-- The error is the fault that is read at its position. -/
def FaultIn (text : List Char) (e : QueryError) : Prop :=
  ∃ fault position c rest, e = .badSyntax fault position ∧ text.drop position = c :: rest ∧
    readToken (text.take position).getLast? c rest = .error fault

theorem faithful_ending : Faithful text text.length [⟨.ending, text.length⟩] where
  ordered := List.pairwise_singleton ..
  behind l hl := by rw [List.mem_singleton.1 hl]
  ends := ⟨[], rfl, nofun⟩

theorem Faithful.skip (h : Faithful text later ls) (before : start ≤ later) :
    Faithful text start ls where
  ordered := h.ordered
  behind l hl := Nat.le_trans before (h.behind l hl)
  ends := h.ends

theorem Faithful.cons (h : Faithful text later ls) (stands : l.StandsIn text)
    (before : l.position < later) : Faithful text l.position (l :: ls) where
  ordered := List.pairwise_cons.2
    ⟨fun l' hl' => Nat.lt_of_lt_of_le before (h.behind l' hl'), h.ordered⟩
  behind := List.forall_mem_cons.2
    ⟨Nat.le_refl _, fun l' hl' => Nat.le_trans (Nat.le_of_lt before) (h.behind l' hl')⟩
  ends := by
    obtain ⟨body, rfl, stand⟩ := h.ends
    exact ⟨l :: body, rfl, List.forall_mem_cons.2 ⟨stands, stand⟩⟩

/-- No lexeme stands behind the end of the text. -/
theorem Faithful.position_le (h : Faithful text start ls) (hl : l ∈ ls) :
    l.position ≤ text.length := by
  obtain ⟨body, rfl, stand⟩ := h.ends
  obtain body | ending := List.mem_append.1 hl
  · exact Nat.le_of_lt (stand l body).position_lt
  · rw [List.mem_singleton.1 ending]

/-- The text goes on behind a token with the character that ends it in front. -/
theorem drop_take_behind {c : Char} {rest : List Char} {n : Nat}
    (here : text.drop start = c :: rest) (length : n ≤ rest.length) :
    text.drop (start + n + 1) = rest.drop n ∧
      (text.take (start + n + 1)).getLast? = (c :: rest)[n]? := by
  have whole := length_of_drop here
  constructor
  · rw [Nat.add_assoc, ← List.drop_drop, here, List.drop_succ_cons]
  · rw [List.getLast?_take, if_neg (Nat.succ_ne_zero _), ← here, List.getElem?_drop,
      Nat.add_sub_cancel, List.getElem?_eq_getElem (by omega)]
    rfl

/-- Scanning from a place in the text on gives the lexemes from there on, or a fault in the text. -/
theorem lexemesFrom_faithful (text : List Char) (start : Nat) (within : start ≤ text.length) :
    (∀ ls, lexemesFrom start (text.take start).getLast? (text.drop start) = .ok ls →
      Faithful text start ls) ∧
    (∀ e, lexemesFrom start (text.take start).getLast? (text.drop start) = .error e →
      FaultIn text e) := by
  cases here : text.drop start with
  | nil =>
    obtain rfl : start = text.length := Nat.le_antisymm within (List.drop_eq_nil_iff.1 here)
    rw [lexemesFrom_nil]
    refine ⟨fun ls same => ?_, nofun⟩
    cases same
    exact faithful_ending
  | cons c rest =>
    cases read : readToken (text.take start).getLast? c rest with
    | error fault =>
      rw [lexemesFrom_cons_error read]
      refine ⟨nofun, fun e same => ?_⟩
      cases same
      exact ⟨fault, start, c, rest, rfl, here, read⟩
    | ok result =>
      obtain ⟨token?, n⟩ := result
      have length := (readToken_le read).1
      have whole := length_of_drop here
      have inside : start + n < text.length := by omega
      obtain ⟨behind, last⟩ := drop_take_behind here length
      obtain ⟨faithful, faults⟩ := lexemesFrom_faithful text (start + n + 1) inside
      rw [lexemesFrom_cons read, ← behind, ← last]
      cases later : lexemesFrom (start + n + 1) (text.take (start + n + 1)).getLast?
          (text.drop (start + n + 1)) with
      | error e =>
        refine ⟨nofun, fun e' same => ?_⟩
        cases same
        exact faults e later
      | ok ls =>
        refine ⟨fun ls' same => ?_, nofun⟩
        cases same
        have tail := faithful ls later
        cases token? with
        | none => exact tail.skip (by omega)
        | some t => exact tail.cons (l := ⟨t, start⟩) ⟨c, rest, n, here, read⟩ (by dsimp only; omega)
termination_by text.length - start

theorem lexemes_faithful {s : String} (h : lexemes s = .ok ls) : Faithful s.toList 0 ls :=
  (lexemesFrom_faithful _ 0 (Nat.zero_le _)).1 ls h

theorem lexemes_fault {s : String} (h : lexemes s = .error e) : FaultIn s.toList e :=
  (lexemesFrom_faithful _ 0 (Nat.zero_le _)).2 e h

end

/-! ## Syntax errors -/

/-- The error is a syntax error at a place in the text or at its end. -/
def PointsInto (text : String) (e : QueryError) : Prop :=
  ∃ fault position, e = .badSyntax fault position ∧ position ≤ text.length

section

variable {α : Type} {text : String} {e : QueryError}

theorem FaultIn.pointsInto (h : FaultIn text.toList e) : PointsInto text e := by
  obtain ⟨fault, position, c, rest, rfl, here, -⟩ := h
  have whole := length_of_drop here
  rw [String.length_toList] at whole
  exact ⟨fault, position, rfl, by omega⟩

/-- What is not expected at an end of the lexemes stands in the text. -/
theorem Unexpected.pointsInto {ls rest : List Lexeme} (faithful : Faithful text.toList 0 ls)
    (suffix : rest <:+ ls) (h : Unexpected rest e) : PointsInto text e := by
  obtain ⟨expected, rfl⟩ := h
  refine ⟨_, _, rfl, ?_⟩
  cases rest with
  | nil => exact Nat.zero_le _
  | cons l rest =>
    rw [← String.length_toList]
    exact faithful.position_le (suffix.subset List.mem_cons_self)

/-- A text is not read because it has no lexemes, or because the parser fails on them. -/
theorem parseWith_eq_error {parser : Grammar → Parser α} :
    parseWith parser text = .error e ↔ lexemes text = .error e ∨
      ∃ ls, lexemes text = .ok ls ∧ parser (Grammar.ofDepth ls.length) ls = .error e := by
  unfold parseWith
  cases lexemes text with
  | error e' =>
    change Except.error e' = .error e ↔ _
    simp
  | ok ls =>
    change Except.map Prod.fst (parser (Grammar.ofDepth ls.length) ls) = _ ↔ _
    cases run : parser (Grammar.ofDepth ls.length) ls <;> simp [Except.map, run]

theorem parseWith_pointsInto {parser : Grammar → Parser α}
    (consumes : ∀ depth, Consumes (parser (Grammar.ofDepth depth)))
    (h : parseWith parser text = .error e) : PointsInto text e := by
  obtain unread | ⟨ls, lexed, run⟩ := parseWith_eq_error.1 h
  · exact (lexemes_fault unread).pointsInto
  · obtain ⟨rest, suffix, unexpected⟩ := (consumes ls.length).fails run
    exact unexpected.pointsInto (lexemes_faithful lexed) suffix

/-- The lexemes of a text stand where they are read, at increasing positions, and the end of the text,
which is the last one and no other, stands behind all characters. Where a text has no lexemes or is no
expression, no query or no list of queries, the error is a syntax error that points into the text or
to its end. -/
theorem positions_faithful (text : String) :
    (∀ ls, lexemes text = .ok ls → ls.Pairwise (fun l l' => l.position < l'.position) ∧
      ∃ body, ls = body ++ [⟨.ending, text.length⟩] ∧
        ∀ l ∈ body, l.token ≠ .ending ∧ l.StandsIn text.toList) ∧
    (∀ e, lexemes text = .error e → PointsInto text e) ∧
    (∀ e, parseQuery text = .error e → PointsInto text e) ∧
    (∀ e, parseQueries text = .error e → PointsInto text e) ∧
    ∀ e, parseExpr text = .error e → PointsInto text e := by
  refine ⟨fun ls lexed => ?_, fun e unread => (lexemes_fault unread).pointsInto,
    fun e failed => ?_, fun e failed => ?_, fun e failed => ?_⟩
  · have faithful := lexemes_faithful lexed
    obtain ⟨body, rfl, stand⟩ := faithful.ends
    exact ⟨faithful.ordered, body, rfl, fun l hl => ⟨(stand l hl).ne_ending, stand l hl⟩⟩
  · exact parseWith_pointsInto (fun depth => (consuming_ofDepth depth).statement) failed
  · refine parseWith_pointsInto (fun depth => ?_) failed
    exact consumes_remaining.bind fun n => (consuming_ofDepth depth).statements n
  · exact parseWith_pointsInto (fun depth => (consuming_ofDepth depth).expression) failed

/-- A text with a comment in it, one that ends too early, and one with an open quote. -/
theorem positions_faithful_comment :
    lexemes "a --\n'b'" = .ok [⟨.identifier "a", 0⟩, ⟨.text "b", 5⟩, ⟨.ending, 8⟩] ∧
      [⟨.identifier "a", 0⟩, ⟨.text "b", 5⟩, ⟨.ending, 8⟩].Pairwise
        (fun l l' : Lexeme => l.position < l'.position) ∧
      (∃ e, parseQuery "SELECT" = .error e ∧ PointsInto "SELECT" e) ∧
      ∃ e, lexemes "SELECT '" = .error e ∧ PointsInto "SELECT '" e := by
  have lexed : lexemes "a --\n'b'" = .ok [⟨.identifier "a", 0⟩, ⟨.text "b", 5⟩, ⟨.ending, 8⟩] :=
    toOption_eq_some (by decide +kernel)
  obtain ⟨early, failed⟩ := toOption_eq_none (x := parseQuery "SELECT") (by decide +kernel)
  obtain ⟨quote, unread⟩ := toOption_eq_none (x := lexemes "SELECT '") (by decide +kernel)
  exact ⟨lexed, ((positions_faithful _).1 _ lexed).1,
    ⟨early, failed, (positions_faithful _).2.2.1 early failed⟩,
    ⟨quote, unread, (positions_faithful _).2.1 quote unread⟩⟩

end

end TableQuery.Language
