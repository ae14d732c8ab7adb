import TableQuery.Proofs.Syntax.Scanning

/-!
# Texts in quotes are read back

Canonical text puts a text in single quotes and doubles those inside it. Read again, it is one token
that holds the text: comment marks, blanks and runs of quotes in it are not seen. The one thing that
must not follow is another quote, which would be taken for half of a doubled one.
-/

namespace TableQuery.Language

open Text

/-- What is left after a quoted text is read on from the closing quote. -/
theorem lexemesFrom_quotedText (position : Nat) (last : Option Char) (s : String) {rest : List Char}
    (h : rest.head? ≠ some '\x27') :
    lexemesFrom position last ((quotedText s).toList ++ rest) =
      (lexemesFrom (position + (quotedText s).length) (some '\x27') rest).map
        (⟨.text s, position⟩ :: ·) := by
  have closing : ('\x27' :: (doubled '\x27' s.toList ++ ['\x27'] ++ rest))[
      (doubled '\x27' s.toList ++ ['\x27']).length]? = some '\x27' := by
    rw [← List.cons_append, List.getElem?_append_left (by simp), ← List.cons_append,
      List.getElem?_append_right (by simp)]
    simp
  rw [← String.length_toList, toList_quotedText, List.cons_append,
    lexemesFrom_cons (readToken_quotedText s h), List.drop_left, closing, List.length_cons,
    Nat.add_assoc]
  rfl

/-- The canonical text of a text literal is one token and the end of the text. In front of anything
but a quote it is that token, too, and reading goes on exactly where the rest starts. -/
theorem text_literal_reads_back (s : String) :
    lexemes (Literal.text s).canonical =
        .ok [⟨.text s, 0⟩, ⟨.ending, (Literal.text s).canonical.length⟩] ∧
      ∀ rest : String, rest.toList.head? ≠ some '\x27' →
        (∃ cs n, ((Literal.text s).canonical ++ rest).toList = '\x27' :: cs ∧
          readToken none '\x27' cs = .ok (some (.text s), n) ∧
          n + 1 = (Literal.text s).canonical.length ∧ cs.drop n = rest.toList) ∧
        lexemes ((Literal.text s).canonical ++ rest) =
          (lexemesFrom (Literal.text s).canonical.length (some '\x27') rest.toList).map
            (⟨.text s, 0⟩ :: ·) := by
  have canonical : (Literal.text s).canonical = quotedText s := rfl
  rw [canonical]
  constructor
  · have apart : ([] : List Char).head? ≠ some '\x27' := nofun
    have alone := lexemesFrom_quotedText 0 none s apart
    rw [List.append_nil, lexemesFrom_nil, Nat.zero_add] at alone
    exact alone
  · intro rest apart
    constructor
    · refine ⟨doubled '\x27' s.toList ++ ['\x27'] ++ rest.toList, _, ?_,
        readToken_quotedText s apart, ?_, List.drop_left⟩
      · rw [String.toList_append, toList_quotedText]
        rfl
      · rw [← String.length_toList, toList_quotedText]
        rfl
    · rw [lexemes, String.toList_append, lexemesFrom_quotedText 0 none s apart, Nat.zero_add]

/-- A text that ends in a quote and holds a comment mark, in front of a parenthesis. -/
theorem text_literal_reads_back_mark :
    (Literal.text "--it'").canonical = "'--it'''" ∧ ")".toList.head? ≠ some '\x27' ∧
      lexemes "'--it''')" = .ok [⟨.text "--it'", 0⟩, ⟨.symbol .rightParen, 8⟩, ⟨.ending, 9⟩] := by
  have canonical : (Literal.text "--it'").canonical = "'--it'''" := by decide
  have apart : ")".toList.head? ≠ some '\x27' := by decide
  refine ⟨canonical, apart, ?_⟩
  have read := ((text_literal_reads_back "--it'").2 ")" apart).2
  have symbol : readToken (some '\x27') ')' [] = .ok (some (.symbol .rightParen), 0) := rfl
  have paren : lexemesFrom 8 (some '\x27') ")".toList =
      .ok [⟨.symbol .rightParen, 8⟩, ⟨.ending, 9⟩] := by
    rw [show ")".toList = [')'] by decide, lexemesFrom_cons symbol, List.drop_zero, lexemesFrom_nil]
    rfl
  rw [canonical, show "'--it'''".length = 8 by decide, paren] at read
  exact read

end TableQuery.Language
