import Mathlib
import TableQuery.Language.Canonical
import TableQuery.Language.Lexeme
import TableQuery.Proofs.Number.Printing

/-!
# Reading tokens piece by piece

A text is put together from pieces. What a piece is read as must not depend on what follows, so
each piece either says that it is read the same in front of anything, or that a character that ends
every token must follow.
-/

namespace TableQuery.Language

open Text Number

/-- The characters are read as the tokens, wherever they stand, and then the text ends. -/
def Scans (cs : List Char) (ts : List Token) : Prop :=
  ∀ position last, ∃ ls, lexemesFrom position last cs =
    .ok (ls ++ [⟨.ending, position + cs.length⟩]) ∧ ls.map Lexeme.token = ts

/-- Blanks, commas and parentheses end the token in front of them. -/
def endsToken (c : Char) : Bool :=
  c == ' ' || c == ',' || c == '(' || c == ')'

/-- Whether a text does not go on with the token in front of it. -/
def startsAnew (cs : List Char) : Prop :=
  ∀ c ∈ cs.head?, endsToken c = true

/-- The piece is read as the tokens in front of what starts anew. -/
def Spells (s : String) (ts : List Token) : Prop :=
  ∀ rest us, startsAnew rest → Scans rest us → Scans (s.toList ++ rest) (ts ++ us)

/-- The piece is read as the tokens in front of anything. -/
def Delimits (s : String) (ts : List Token) : Prop :=
  ∀ rest us, Scans rest us → Scans (s.toList ++ rest) (ts ++ us)

/-! ## One token -/

theorem lexemesFrom_nil (position : Nat) (last : Option Char) :
    lexemesFrom position last [] = .ok [⟨.ending, position⟩] := by
  rw [lexemesFrom.eq_def]

theorem lexemesFrom_cons {position n : Nat} {last : Option Char} {c : Char} {rest : List Char}
    {token? : Option Token} (read : readToken last c rest = .ok (token?, n)) :
    lexemesFrom position last (c :: rest) =
      (lexemesFrom (position + n + 1) (c :: rest)[n]? (rest.drop n)).map fun ls =>
        token?.elim ls fun t => ⟨t, position⟩ :: ls := by
  rw [lexemesFrom.eq_def]
  dsimp only
  rw [read]
  dsimp only
  cases lexemesFrom (position + n + 1) (c :: rest)[n]? (rest.drop n) <;> cases token? <;> rfl

theorem lexemesFrom_cons_error {position : Nat} {last : Option Char} {c : Char} {rest : List Char}
    {fault : SyntaxFault} (read : readToken last c rest = .error fault) :
    lexemesFrom position last (c :: rest) = .error (.badSyntax fault position) := by
  rw [lexemesFrom.eq_def]
  dsimp only
  rw [read]

theorem scans_nil : Scans [] [] :=
  fun position last => ⟨[], lexemesFrom_nil position last, rfl⟩

section

variable {c : Char} {w rest : List Char} {t : Token} {us : List Token}

theorem Scans.token (read : ∀ last, readToken last c (w ++ rest) = .ok (some t, w.length))
    (h : Scans rest us) : Scans (c :: (w ++ rest)) (t :: us) := by
  intro position last
  obtain ⟨ls, scanned, rfl⟩ := h (position + w.length + 1) (c :: (w ++ rest))[w.length]?
  refine ⟨⟨t, position⟩ :: ls, ?_, rfl⟩
  rw [lexemesFrom_cons (read last), List.drop_left, scanned]
  simp only [Except.map, Option.elim_some, List.cons_append, List.length_cons, List.length_append]
  rw [show position + w.length + 1 + rest.length = position + (w.length + rest.length + 1) by omega]

/-- A symbol of one character. -/
theorem Scans.symbol {s : Symbol} (read : ∀ last, readToken last c rest = .ok (some (.symbol s), 0))
    (h : Scans rest us) : Scans (c :: rest) (.symbol s :: us) :=
  Scans.token (w := []) read h

theorem readToken_blank {last : Option Char} {cs : List Char} (h : isBlank c = true) :
    readToken last c cs = .ok (none, (cs.takeWhile isBlank).length) := by
  rw [readToken, if_pos h]

/-- Blanks in front change nothing. Those that follow the first one are dropped in one go with it. -/
theorem Scans.blank (blank : isBlank c = true) (h : Scans rest us) : Scans (c :: rest) us := by
  intro position last
  obtain ⟨ls, scanned, rfl⟩ := h (position + 1) (some c)
  refine ⟨ls, ?_, rfl⟩
  rw [lexemesFrom_cons (readToken_blank blank), List.length_cons,
    show position + (rest.length + 1) = position + 1 + rest.length by omega, ← scanned]
  cases rest with
  | nil => rw [List.takeWhile_nil, List.length_nil, List.drop_nil, lexemesFrom_nil,
    lexemesFrom_nil]; rfl
  | cons d rest =>
    by_cases more : isBlank d = true
    · rw [lexemesFrom_cons (readToken_blank more), List.takeWhile_cons, if_pos more,
        List.length_cons, List.drop_succ_cons, List.getElem?_cons_succ,
        show position + ((rest.takeWhile isBlank).length + 1) + 1
          = position + 1 + (rest.takeWhile isBlank).length + 1 by omega]
      rfl
    · rw [List.takeWhile_cons, if_neg more, List.length_nil, List.drop_zero,
        List.getElem?_cons_zero, Nat.add_zero]
      cases lexemesFrom (position + 1) (some c) (d :: rest) <;> rfl

end

/-! ## Pieces -/

section

variable {s t : String} {ts us : List Token}

theorem Delimits.spells (h : Delimits s ts) : Spells s ts :=
  fun rest us _ scans => h rest us scans

theorem Delimits.append (h : Delimits s ts) (h' : Delimits t us) : Delimits (s ++ t) (ts ++ us) := by
  intro rest vs scans
  rw [String.toList_append, List.append_assoc, List.append_assoc]
  exact h _ _ (h' _ _ scans)

theorem Delimits.append_spells (h : Delimits s ts) (h' : Spells t us) :
    Spells (s ++ t) (ts ++ us) := by
  intro rest vs anew scans
  rw [String.toList_append, List.append_assoc, List.append_assoc]
  exact h _ _ (h' _ _ anew scans)

/-- The second piece may be empty. -/
theorem Spells.append (h : Spells s ts) (h' : Spells t us) (anew : startsAnew t.toList) :
    Spells (s ++ t) (ts ++ us) := by
  intro rest vs restAnew scans
  rw [String.toList_append, List.append_assoc, List.append_assoc]
  refine h _ _ ?_ (h' _ _ restAnew scans)
  cases text : t.toList with
  | nil => exact restAnew
  | cons c cs => rw [text] at anew; exact anew

theorem Spells.append_delimits (h : Spells s ts) (h' : Delimits t us)
    (anew : ∃ c ∈ t.toList.head?, endsToken c = true) : Delimits (s ++ t) (ts ++ us) := by
  intro rest vs scans
  rw [String.toList_append, List.append_assoc, List.append_assoc]
  refine h _ _ ?_ (h' _ _ scans)
  obtain ⟨c, head, ends⟩ := anew
  intro d hd
  rw [List.head?_append_of_ne_nil _ (by rintro nil; simp [nil] at head)] at hd
  obtain rfl : c = d := Option.some.inj (head.symm.trans hd)
  exact ends

theorem Spells.scans (h : Spells s ts) : Scans s.toList ts := by
  simpa using h [] [] (by simp [startsAnew]) scans_nil

/-- A whole text that spells tokens has them as its lexemes, and the end of the text. -/
theorem Spells.lexemes (h : Spells s ts) :
    ∃ ls, lexemes s = .ok (ls ++ [⟨.ending, s.length⟩]) ∧ ls.map Lexeme.token = ts := by
  obtain ⟨ls, scanned, tokens⟩ := h.scans 0 none
  refine ⟨ls, ?_, tokens⟩
  rw [Nat.zero_add, String.length_toList] at scanned
  exact scanned

theorem delimits_empty : Delimits "" [] :=
  fun _ _ scans => scans

theorem delimits_blank : Delimits " " [] :=
  fun _ _ scans => Scans.blank rfl scans

theorem delimits_comma : Delimits ", " [.symbol .comma] :=
  fun rest _ scans => Scans.symbol (fun _ => rfl) (delimits_blank rest _ scans)

theorem delimits_leftParen : Delimits "(" [.symbol .leftParen] :=
  fun _ _ scans => Scans.symbol (fun _ => rfl) scans

theorem delimits_rightParen : Delimits ")" [.symbol .rightParen] :=
  fun _ _ scans => Scans.symbol (fun _ => rfl) scans

theorem delimits_asterisk : Delimits "*" [.symbol .asterisk] :=
  fun _ _ scans => Scans.symbol (fun _ => rfl) scans

theorem delimits_plus : Delimits "+" [.symbol .plus] :=
  fun _ _ scans => Scans.symbol (fun _ => rfl) scans

theorem spells_symbol (s : Symbol) : Spells s.text [.symbol s] := by
  intro rest us anew scans
  have read : ∃ c w, s.text.toList = c :: w ∧
      ∀ last, readToken last c (w ++ rest) = .ok (some (.symbol s), w.length) := by
    cases rest with
    | nil => cases s <;> exact ⟨_, _, rfl, fun _ => rfl⟩
    | cons d rest =>
      have ends := anew d rfl
      simp only [endsToken, Bool.or_eq_true, beq_iff_eq] at ends
      rcases ends with ((rfl | rfl) | rfl) | rfl <;> cases s <;> exact ⟨_, _, rfl, fun _ => rfl⟩
  obtain ⟨c, w, text, read⟩ := read
  rw [text]
  exact Scans.token read scans

theorem Spells.blank (h : Spells s ts) : Delimits (s ++ " ") ts := by
  simpa using h.append_delimits delimits_blank ⟨' ', rfl, rfl⟩

theorem readToken_minus {last : Option Char} {cs : List Char} (h : cs.head? ≠ some '-') :
    readToken last '-' cs = .ok (some (.symbol .minus), 0) := by
  rw [readToken, if_neg (by decide), if_neg (by simpa using h)]
  rfl

/-- A minus sign; a second one behind it would start a comment. -/
theorem Spells.minus (h : Spells s ts) (single : s.toList.head? ≠ some '-') :
    Spells ("-" ++ s) (.symbol .minus :: ts) := by
  intro rest us anew scans
  have tail := h rest us anew scans
  have head : (s.toList ++ rest).head? ≠ some '-' := by
    cases text : s.toList with
    | nil =>
      intro minus
      have := anew '-' minus
      simp [endsToken] at this
    | cons c cs => simpa [text] using single
  rw [String.toList_append, List.append_assoc]
  exact Scans.symbol (fun last => readToken_minus head) tail

/-- A piece in parentheses. -/
theorem Spells.parens (h : Spells s ts) :
    Delimits ("(" ++ s ++ ")") (.symbol .leftParen :: (ts ++ [.symbol .rightParen])) :=
  (delimits_leftParen.append_spells h).append_delimits delimits_rightParen ⟨')', rfl, rfl⟩

end

/-! ## Words -/

/-- Whether a text is one word that starts with no digit. -/
def isWord (s : String) : Bool :=
  match s.toList with
  | c :: cs => (isLetter c || c == '_') && cs.all isWordChar
  | [] => false

/-- Whether a text is a word and not reserved, so that it is a name without quotes. -/
def isPlain (s : String) : Bool :=
  isWord s && (Keyword.ofWord? s).isNone

/-- Letters are not blank. -/
theorem isLetter_of_isBlank {c : Char} (h : isBlank c = true) : isLetter c = false := by
  unfold isBlank at h
  have points : c.toNat ∈ [9, 10, 11, 12, 13, 0x20, 0x85, 0xA0, 0x1680, 0x2000, 0x2001, 0x2002, 0x2003,
      0x2004, 0x2005, 0x2006, 0x2007, 0x2008, 0x2009, 0x200A, 0x2028, 0x2029, 0x202F, 0x205F,
      0x3000] := by
    simp only [Bool.or_eq_true, Bool.and_eq_true, decide_eq_true_eq, beq_iff_eq] at h
    simp only [List.mem_cons, List.not_mem_nil, or_false]
    omega
  have letters : ∀ n ∈ [9, 10, 11, 12, 13, 0x20, 0x85, 0xA0, 0x1680, 0x2000, 0x2001, 0x2002, 0x2003,
      0x2004, 0x2005, 0x2006, 0x2007, 0x2008, 0x2009, 0x200A, 0x2028, 0x2029, 0x202F, 0x205F,
      0x3000], isLetter (Char.ofNat n) = false := by
    decide +kernel
  simpa using letters _ points

/-- Digits are no letters. -/
theorem isLetter_of_isDigit {c : Char} (h : isDigit c = true) : isLetter c = false := by
  simp only [isDigit, Char.isDigit, Bool.and_eq_true, decide_eq_true_eq] at h
  have low : '0'.toNat ≤ c.toNat := h.1
  have high : c.toNat ≤ '9'.toNat := h.2
  have points : c.toNat ∈ [48, 49, 50, 51, 52, 53, 54, 55, 56, 57] := by
    simp only [List.mem_cons, List.not_mem_nil, or_false]
    have : '0'.toNat = 48 := rfl
    have : '9'.toNat = 57 := rfl
    omega
  have letters : ∀ n ∈ [48, 49, 50, 51, 52, 53, 54, 55, 56, 57], isLetter (Char.ofNat n) = false := by
    decide
  simpa using letters _ points

/-- Words start with no digit. -/
theorem isDigit_of_start {c : Char} (h : isLetter c || c == '_') : isDigit c = false := by
  by_contra digit
  rw [Bool.not_eq_false] at digit
  have underscore : c ≠ '_' := by rintro rfl; exact absurd digit (by decide)
  simp [isLetter_of_isDigit digit, underscore] at h

theorem readToken_word {last : Option Char} {c : Char} {cs : List Char}
    (h : isLetter c || c == '_') : readToken last c cs =
      .ok (some (wordToken (String.ofList (c :: wordAhead cs))), (wordAhead cs).length) := by
  have blank : isBlank c = false := by
    by_contra blank
    rw [Bool.not_eq_false] at blank
    have underscore : c ≠ '_' := by rintro rfl; exact absurd blank (by decide)
    simp [isLetter_of_isBlank blank, underscore] at h
  have digit := isDigit_of_start h
  have other (d : Char) (hd : (isLetter d || d == '_') = false) : (c == d) = false := by
    rw [beq_eq_false_iff_ne]
    rintro rfl
    rw [h] at hd
    cases hd
  unfold readToken
  simp only [blank, digit, h, other '-' rfl, other '/' rfl, other '\x27' rfl, other '"' rfl, other '\x60' rfl,
    other '@' rfl, other '.' rfl, Bool.false_and, Bool.or_self, Bool.false_eq_true, if_false, if_true]

theorem wordAhead_append {w rest : List Char} (h : ∀ c ∈ w, isWordChar c = true)
    (stop : ∀ c ∈ rest.head?, isWordChar c = false) : wordAhead (w ++ rest) = w := by
  rw [wordAhead, List.takeWhile_append_of_pos h, takeWhile_of_head? stop, List.append_nil]

theorem isWordChar_of_endsToken {c : Char} (h : endsToken c = true) : isWordChar c = false := by
  simp only [endsToken, Bool.or_eq_true, beq_iff_eq] at h
  rcases h with ((rfl | rfl) | rfl) | rfl <;> rfl

theorem isWord_iff {s : String} : isWord s = true ↔
    ∃ c cs, s.toList = c :: cs ∧ (isLetter c || c == '_') = true ∧ ∀ d ∈ cs, isWordChar d = true := by
  rw [isWord]
  cases s.toList <;> simp

/-- A word in front of what goes on with no word. -/
theorem scans_word {s : String} {rest : List Char} {us : List Token} (h : isWord s = true)
    (stop : ∀ c ∈ rest.head?, isWordChar c = false) (scans : Scans rest us) :
    Scans (s.toList ++ rest) (wordToken s :: us) := by
  obtain ⟨c, cs, text, start, word⟩ := isWord_iff.1 h
  have token := Scans.token (c := c) (w := cs) (t := wordToken s) (fun last => ?_) scans
  · rw [text]
    exact token
  · rw [readToken_word start, wordAhead_append word stop, ← text, String.ofList_toList]

theorem spells_word {s : String} (h : isWord s = true) : Spells s [wordToken s] :=
  fun _ _ anew scans => scans_word h (fun c hc => isWordChar_of_endsToken (anew c hc)) scans

theorem wordToken_of_isPlain {s : String} (h : isPlain s = true) : wordToken s = .identifier s := by
  simp only [isPlain, Bool.and_eq_true, Option.isNone_iff_eq_none] at h
  rw [wordToken, h.2]

theorem spells_name {s : String} (h : isPlain s = true) : Spells s [.identifier s] := by
  rw [← wordToken_of_isPlain h]
  exact spells_word (Bool.and_eq_true_iff.1 h).1

theorem spells_keyword (k : Keyword) : Spells k.text [.keyword k] := by
  have word : isWord k.text = true := by cases k <;> rfl
  have token : wordToken k.text = .keyword k := by cases k <;> rfl
  rw [← token]
  exact spells_word word

/-- A name starts with no digit. -/
theorem digitAhead_name {s : String} (h : isPlain s = true) (rest : List Char) :
    digitAhead (s.toList ++ rest) = false := by
  obtain ⟨c, cs, text, start, -⟩ := isWord_iff.1 (Bool.and_eq_true_iff.1 h).1
  rw [text]
  exact isDigit_of_start start

/-- A name and a point in front of what starts with no digit. -/
theorem scans_dot {s : String} {rest : List Char} {us : List Token} (h : isPlain s = true)
    (digit : digitAhead rest = false) (scans : Scans rest us) :
    Scans (s.toList ++ '.' :: rest) (.identifier s :: .symbol .dot :: us) := by
  rw [← wordToken_of_isPlain h]
  refine scans_word (Bool.and_eq_true_iff.1 h).1 (by rintro c ⟨⟩; rfl) (Scans.symbol (fun last => ?_) scans)
  have notBlank : isBlank '.' = false := rfl
  unfold readToken
  simp only [notBlank, digit]
  rfl

theorem spells_variable {name : String} (h : name.toList ≠ []) (word : ∀ c ∈ name.toList, isWordChar c = true) :
    Spells ("@" ++ name) [.variable name] := by
  intro rest us anew scans
  rw [String.toList_append, List.append_assoc]
  refine Scans.token (c := '@') (w := name.toList) (fun last => ?_) scans
  have ahead := wordAhead_append word (fun c hc => isWordChar_of_endsToken (anew c hc))
  have nonempty : name.toList.isEmpty = false := by simpa using h
  have read : readToken last '@' (name.toList ++ rest) =
      (if (wordAhead (name.toList ++ rest)).isEmpty then .error .missingVariableName
        else .ok (some (.variable (String.ofList (wordAhead (name.toList ++ rest)))),
          (wordAhead (name.toList ++ rest)).length)) := rfl
  rw [read, ahead, nonempty, String.ofList_toList]
  rfl

/-! ## Quoted texts -/

/-- The characters with each quote doubled. -/
def doubled (quote : Char) (cs : List Char) : List Char :=
  cs.flatMap fun c => if c == quote then [c, c] else [c]

theorem doubled_cons_self (quote : Char) (cs : List Char) :
    doubled quote (quote :: cs) = quote :: quote :: doubled quote cs := by
  simp [doubled]

theorem doubled_cons {quote c : Char} (h : c ≠ quote) (cs : List Char) :
    doubled quote (c :: cs) = c :: doubled quote cs := by
  simp [doubled, h]

/-- Doubled characters are read as they were, whatever follows them. -/
theorem readQuoted?_doubled_append (quote : Char) (cs rest : List Char) :
    readQuoted? quote (doubled quote cs ++ rest) =
      (readQuoted? quote rest).map fun (s, n) => (cs ++ s, (doubled quote cs).length + n) := by
  induction cs with
  | nil => simp [doubled]
  | cons c cs ih =>
    by_cases same : c = quote
    · subst same
      rw [doubled_cons_self, List.cons_append, List.cons_append, readQuoted?.eq_def]
      simp only [beq_self_eq_true, if_true, ih]
      cases readQuoted? c rest with
      | none => rfl
      | some read => simp [Nat.add_right_comm]
    · rw [doubled_cons same, List.cons_append, readQuoted?.eq_def]
      simp only [beq_eq_false_iff_ne.2 same, Bool.false_eq_true, if_false, ih]
      cases readQuoted? quote rest with
      | none => rfl
      | some read => simp [Nat.add_right_comm]

/-- A quote that no other one follows ends the text. -/
theorem readQuoted?_close {quote : Char} {rest : List Char} (h : rest.head? ≠ some quote) :
    readQuoted? quote (quote :: rest) = some ([], 1) := by
  cases rest with
  | nil => simp [readQuoted?]
  | cons d ds =>
    have differs : (d == quote) = false := by simpa using h
    simp [readQuoted?, differs]

/-- What stands in quotes is read up to the closing quote. -/
theorem readQuoted?_doubled {quote : Char} {cs rest : List Char} (h : rest.head? ≠ some quote) :
    readQuoted? quote (doubled quote cs ++ quote :: rest) =
      some (cs, (doubled quote cs).length + 1) := by
  simp [readQuoted?_doubled_append, readQuoted?_close h]

theorem toList_quotedText (s : String) :
    (quotedText s).toList = '\x27' :: (doubled '\x27' s.toList ++ ['\x27']) :=
  String.toList_ofList

theorem readToken_quote {last : Option Char} {cs s : List Char} {n : Nat}
    (h : readQuoted? '\x27' cs = some (s, n)) :
    readToken last '\x27' cs = .ok (some (.text (String.ofList s)), n) := by
  simp [readToken, isBlank, h]

/-- A quoted text is one token, unless another quote follows it. -/
theorem readToken_quotedText {last : Option Char} (s : String) {rest : List Char}
    (h : rest.head? ≠ some '\x27') :
    readToken last '\x27' (doubled '\x27' s.toList ++ ['\x27'] ++ rest) =
      .ok (some (.text s), (doubled '\x27' s.toList ++ ['\x27']).length) := by
  rw [List.append_assoc, List.singleton_append, readToken_quote (readQuoted?_doubled h),
    List.length_append, List.length_singleton, String.ofList_toList]

theorem spells_quotedText (s : String) : Spells (quotedText s) [.text s] := by
  intro rest us anew scans
  have closed : rest.head? ≠ some '\x27' := fun head => absurd (anew _ head) (by decide)
  rw [toList_quotedText]
  exact Scans.token (fun last => readToken_quotedText s closed) scans

/-! ## Numbers -/

theorem numberLength_digits {fractional : Bool} {ds rest : List Char}
    (h : ∀ d ∈ ds, isDigit d = true) : numberLength fractional (ds ++ rest) =
      (ds.length + (numberLength fractional rest).1, (numberLength fractional rest).2) := by
  induction ds with
  | nil => simp
  | cons d ds ih =>
    simp only [List.mem_cons, forall_eq_or_imp] at h
    rw [List.cons_append, numberLength.eq_def]
    simp only [h.1, if_true, ih h.2]
    rw [List.length_cons, Nat.add_right_comm]

theorem numberLength_startsAnew {fractional : Bool} {rest : List Char} (h : startsAnew rest) :
    numberLength fractional rest = (0, fractional) := by
  cases rest with
  | nil => rfl
  | cons c cs =>
    have ends := h c rfl
    simp only [endsToken, Bool.or_eq_true, beq_iff_eq] at ends
    rcases ends with ((rfl | rfl) | rfl) | rfl <;> cases cs <;> rfl

theorem readToken_digit {last : Option Char} {c : Char} {cs : List Char} (h : isDigit c = true) :
    readToken last c cs = (readNumber c cs).map fun (t, n) => (some t, n) := by
  have other (d : Char) (hd : isDigit d = false) : (c == d) = false := by
    rw [beq_eq_false_iff_ne]
    rintro rfl
    rw [h] at hd
    cases hd
  have blank := isBlank_of_isDigit h
  unfold readToken
  simp only [blank, h, other '-' rfl, other '/' rfl, other '\x27' rfl, other '"' rfl,
    other '\x60' rfl, other '@' rfl, Bool.false_and, Bool.or_self, Bool.true_or, Bool.false_eq_true,
    if_false, if_true]

theorem isDigit_of_mem {n : Nat} : ∀ d ∈ Nat.toDigits 10 n, isDigit d = true :=
  fun _ hd => Nat.isDigit_of_mem_toDigits (by decide) (by decide) hd

theorem readInteger?_toDigits {n : Nat} (h : (n : Int) ≤ Int64.maxValue.toInt) :
    readInteger? (Nat.toDigits 10 n) = some (.ofInt n) := by
  have digits := isDigit_of_mem (n := n)
  have value : ofDigits (Nat.toDigits 10 n) = n := Nat.ofDigitChars_toDigits (by decide) (by decide)
  have nonempty : Nat.toDigits 10 n ≠ [] := Nat.toDigits_ne_nil
  have unsigned : splitSign (Nat.toDigits 10 n) = (false, Nat.toDigits 10 n) := by
    unfold splitSign
    split
    · rename_i text
      exact absurd (digits '-' (by simp [text])) (by decide)
    · rename_i text
      exact absurd (digits '+' (by simp [text])) (by decide)
    · rfl
  have all : (Nat.toDigits 10 n).all isDigit = true := List.all_eq_true.2 digits
  have low : Int64.minValue.toInt ≤ (n : Int) := by
    have : Int64.minValue.toInt ≤ 0 := by decide
    omega
  simp only [readInteger?, unsigned, all, value]
  simp [nonempty, int64?, h]

theorem toList_integerText {i : Int64} (h : 0 ≤ i) :
    ∃ n : Nat, i.toInt = n ∧ (Value.integerText i).toList = Nat.toDigits 10 n := by
  obtain ⟨n, hn⟩ := Int.eq_ofNat_of_zero_le (Int64.le_iff_toInt_le.1 h)
  refine ⟨n, hn, ?_⟩
  rw [Value.integerText, hn]
  exact String.toList_ofList

theorem spells_integer {i : Int64} (h : 0 ≤ i) : Spells (Value.integerText i) [.integer i] := by
  intro rest us anew scans
  obtain ⟨n, hn, text⟩ := toList_integerText h
  have read := readInteger?_toDigits (hn ▸ Int64.toInt_le i)
  rw [← hn, Int64.ofInt_toInt] at read
  obtain ⟨c, cs, split⟩ := List.exists_cons_of_ne_nil (Nat.toDigits_ne_nil (n := n) (b := 10))
  have digits := isDigit_of_mem (n := n)
  rw [text]
  rw [split] at read digits ⊢
  simp only [List.mem_cons, forall_eq_or_imp] at digits
  have first : (c == '.') = false := by
    rw [beq_eq_false_iff_ne]
    rintro rfl
    exact absurd digits.1 (by decide)
  refine Scans.token (fun last => ?_) scans
  rw [readToken_digit digits.1, readNumber, first, numberLength_digits digits.2,
    numberLength_startsAnew anew]
  simp [read]
  rfl

/-- Digits with a fraction are one number up to where a token starts anew. -/
theorem numberLength_denotes {cs whole fraction rest : List Char} {c : Char} {x : ℚ}
    (h : Denotes (c :: cs) x whole fraction) (anew : startsAnew rest) :
    isDigit c = true ∧ numberLength (c == '.') (cs ++ rest) = (cs.length, !fraction.isEmpty) := by
  obtain ⟨d, whole, rfl⟩ := List.exists_cons_of_ne_nil h.nonempty
  obtain ⟨rfl, rfl⟩ := List.cons.inj (h.text.trans List.cons_append)
  have digits := h.digits
  rw [List.cons_append, List.forall_mem_cons, List.forall_mem_append] at digits
  obtain ⟨first, wholeDigits, fractionDigits⟩ := digits
  have other : (c == '.') = false := by
    rw [beq_eq_false_iff_ne]
    rintro rfl
    cases first
  refine ⟨first, ?_⟩
  rw [other, List.append_assoc, numberLength_digits wholeDigits]
  cases fraction with
  | nil =>
    rw [List.isEmpty_nil, if_pos rfl, List.nil_append, numberLength_startsAnew anew, List.append_nil]
    rfl
  | cons d fraction =>
    have point : numberLength false ('.' :: (d :: fraction ++ rest))
        = ((numberLength true (d :: fraction ++ rest)).1 + 1,
          (numberLength true (d :: fraction ++ rest)).2) := by
      have noDigit : isDigit '.' = false := rfl
      have ahead : digitAhead (d :: (fraction ++ rest)) = true := fractionDigits d List.mem_cons_self
      rw [numberLength.eq_def]
      simp [noDigit, ahead]
    rw [List.isEmpty_cons, if_neg Bool.false_ne_true, List.cons_append, point,
      numberLength_digits fractionDigits, numberLength_startsAnew anew]
    simp

/-- A float whose text is no whole number of 64 bits. -/
theorem spells_float {f : Float} (finite : f.isFinite = true) (positive : f.toBits.toNat < 2 ^ 63)
    (wide : readInteger? (floatText f).toList = none) : Spells (floatText f) [.float f] := by
  intro rest us anew scans
  obtain ⟨x, whole, fraction, denotes, read⟩ := floatText_denotes finite positive
  obtain ⟨c, cs, text⟩ : ∃ c cs, (floatText f).toList = c :: cs := by
    refine List.exists_cons_of_ne_nil ?_
    rw [denotes.text]
    exact List.append_ne_nil_of_left_ne_nil denotes.nonempty _
  rw [text] at denotes read wide ⊢
  obtain ⟨digit, length⟩ := numberLength_denotes denotes anew
  refine Scans.token (fun last => ?_) scans
  rw [readToken_digit digit, readNumber, length]
  simp [read, wide]
  rfl

end TableQuery.Language
