import TableQuery.Text.LetterTable

/-!
# Classes of characters

White space, which separates words, and the letters and digits that words are made of. Beyond ASCII
the tables of the Unicode character database decide which characters are letters and digits.
-/

namespace TableQuery.Text

/-! ## White space -/

/-- The characters with the property White_Space. They separate words and are dropped at the ends of
a text. -/
def isBlank (c : Char) : Bool :=
  let n := c.toNat
  (9 ≤ n && n ≤ 13) || n == 0x20 || n == 0x85 || n == 0xA0 || n == 0x1680 ||
    (0x2000 ≤ n && n ≤ 0x200A) || n == 0x2028 || n == 0x2029 || n == 0x202F || n == 0x205F ||
    n == 0x3000

/-- The characters without the blank ones at the start. -/
def trimStart (cs : List Char) : List Char :=
  cs.dropWhile isBlank

/-- The characters without the blank ones at either end. -/
def trimChars (cs : List Char) : List Char :=
  (trimStart (trimStart cs).reverse).reverse

/-- The text without blank characters at either end. -/
def trim (s : String) : String :=
  String.ofList (trimChars s.toList)

/-! ## Letters, digits and words -/

/-- Whether a code point lies in one of the ranges. -/
def inRanges (ranges : List (Nat × Nat)) (n : Nat) : Bool :=
  ranges.any fun (first, last) => first ≤ n && n ≤ last

/-- A decimal digit of ASCII; numbers are written with these alone. -/
def isDigit (c : Char) : Bool :=
  c.isDigit

/-- A letter, of any script. -/
def isLetter (c : Char) : Bool :=
  if c.toNat < 128 then c.isAlpha else inRanges alphabeticRanges c.toNat

/-- A digit or another character with a numeric value, of any script. -/
def isNumeric (c : Char) : Bool :=
  if c.toNat < 128 then c.isDigit else inRanges numericRanges c.toNat

/-- A character of a word: a letter, a digit or the underscore. -/
def isWordChar (c : Char) : Bool :=
  isLetter c || isNumeric c || c == '_'

end TableQuery.Text
