import TableQuery.Value.Basic

/-!
# Patterns

`LIKE` patterns: `%` stands for any characters, `_` for one character, and a backslash makes the
character after it stand for itself. Text and pattern are put into upper case first.

The matcher walks through the text and the parts of the pattern side by side. It passes each `%`
without taking anything for it, and comes back to the last one it passed, to let it take one
character more, whenever the parts behind it do not fit.
-/

namespace TableQuery

open Text

/-- A part of a pattern. -/
inductive PatternItem where
  | anyText
  | anyChar
  | char (c : Char)
  deriving DecidableEq, Repr

/-- Whether the part stands for the single character. -/
def PatternItem.fits : PatternItem → Char → Bool
  | anyText, _ => false
  | anyChar, _ => true
  | char p, c => p == c

namespace Pattern

/-- Parts with a `%` in front, unless they start with one: it says as much as two of them. -/
def addAnyText : List PatternItem → List PatternItem
  | .anyText :: ps => .anyText :: ps
  | ps => .anyText :: ps

/-- The parts of a pattern. A backslash that precedes none of `%`, `_` and `\` stands for itself. -/
def items : List Char → List PatternItem
  | '\\' :: '%' :: cs => .char '%' :: items cs
  | '\\' :: '_' :: cs => .char '_' :: items cs
  | '\\' :: '\\' :: cs => .char '\\' :: items cs
  | '%' :: cs => addAnyText (items cs)
  | '_' :: cs => .anyChar :: items cs
  | c :: cs => .char c :: items cs
  | [] => []

/-! ## Spots -/

/-- A place to come back to: the part that is a `%`, and the character from which on the parts
behind it were last tried. -/
structure Retry where
  part : Nat
  char : Nat
  deriving DecidableEq, Repr

/-- Where the matcher stands: before a character and a part, with the last `%` that it passed. -/
structure Spot where
  char : Nat := 0
  part : Nat := 0
  retry : Option Retry := none
  deriving DecidableEq, Repr

/-- The spot behind the `%`. -/
def Retry.spot (r : Retry) : Spot :=
  ⟨r.char, r.part + 1, some r⟩

/-- The same `%` when it takes one character more. -/
def Retry.more (r : Retry) : Retry :=
  ⟨r.part, r.char + 1⟩

/-- Comes back to the last `%` and lets it take one character more. -/
def Spot.back? (s : Spot) : Option Spot :=
  s.retry.map fun r => r.more.spot

/-- The next spot, where `c` is the character after the spot. Without a `%` to come back to, a part
that does not fit has none. -/
def Spot.next? (ps : Array PatternItem) (c : Char) (s : Spot) : Option Spot :=
  match ps[s.part]? with
  | some .anyText => some (Retry.spot ⟨s.part, s.char⟩)
  | some p => if p.fits c then some ⟨s.char + 1, s.part + 1, s.retry⟩ else s.back?
  | none => s.back?

/-- What a step does: it passes a `%`, takes a character with a part, or comes back. -/
theorem Spot.next?_cases (ps : Array PatternItem) (c : Char) (s : Spot) :
    (ps[s.part]? = some .anyText ∧ s.next? ps c = some (Retry.spot ⟨s.part, s.char⟩)) ∨
      (∃ p, ps[s.part]? = some p ∧ p ≠ .anyText ∧ p.fits c = true ∧
        s.next? ps c = some ⟨s.char + 1, s.part + 1, s.retry⟩) ∨
      ((∀ p, ps[s.part]? = some p → p ≠ .anyText ∧ p.fits c = false) ∧
        s.next? ps c = s.back?) := by
  unfold next?
  cases here : ps[s.part]? with
  | none =>
    refine .inr (.inr ⟨?_, rfl⟩)
    intro _ h
    cases h
  | some p =>
    cases p with
    | anyText => exact .inl ⟨rfl, rfl⟩
    | anyChar => exact .inr (.inl ⟨_, rfl, by decide, rfl, rfl⟩)
    | char d =>
      cases fits : (PatternItem.char d).fits c with
      | true => exact .inr (.inl ⟨_, rfl, by simp, fits, by simp [fits]⟩)
      | false =>
        refine .inr (.inr ⟨?_, by simp [fits]⟩)
        rintro _ ⟨⟩
        exact ⟨by simp, fits⟩

/-- What holds wherever the matcher stands: it is inside of the pattern and the text, and behind the
`%` that it may come back to. -/
structure Spot.Inside (parts chars : Nat) (s : Spot) : Prop where
  char_le : s.char ≤ chars
  part_le : s.part ≤ parts
  retry_le : ∀ r ∈ s.retry, r.part < s.part ∧ r.char ≤ s.char

/-- What the matcher has left: the parts behind the last `%`, the text behind the place from which
they were last tried, and the parts behind the spot, as the digits of one number. -/
def Spot.left (parts chars : Nat) (s : Spot) : Nat :=
  ((parts - s.retry.elim 0 (·.part + 1)) * (chars + 1) + (chars - s.retry.elim 0 (·.char))) *
    (parts + 1) + (parts - s.part)

/-- A smaller digit in front makes a number smaller whatever follows. -/
theorem digits_lt {high high' low low' base : Nat} (front : high' < high) (digit : low' ≤ base) :
    high' * (base + 1) + low' < high * (base + 1) + low := by
  have step := Nat.mul_le_mul_right (base + 1) (Nat.succ_le_of_lt front)
  rw [Nat.succ_mul] at step
  omega

/-- A step stays inside, and there is less left after it. -/
theorem Spot.Inside.next {ps : Array PatternItem} {c : Char} {chars : Nat} {s s' : Spot}
    (inside : s.Inside ps.size chars) (more : s.char < chars) (next : s.next? ps c = some s') :
    s'.Inside ps.size chars ∧ s'.left ps.size chars < s.left ps.size chars := by
  obtain ⟨here, step⟩ | ⟨p, here, -, -, step⟩ | ⟨-, step⟩ := s.next?_cases ps c
  · obtain ⟨part, -⟩ := Array.getElem?_eq_some_iff.1 here
    cases step.symm.trans next
    refine ⟨⟨inside.char_le, part, ?_⟩, digits_lt (digits_lt ?_ (Nat.sub_le _ _)) (Nat.sub_le _ _)⟩
    · rintro _ ⟨⟩
      exact ⟨Nat.lt_succ_self _, Nat.le_refl _⟩
    · cases hr : s.retry with
      | none =>
        simp only [Retry.spot, Option.elim_some, Option.elim_none]
        omega
      | some r =>
        have behind := (inside.retry_le r hr).1
        simp only [Retry.spot, Option.elim_some]
        omega
  · obtain ⟨part, -⟩ := Array.getElem?_eq_some_iff.1 here
    cases step.symm.trans next
    refine ⟨⟨more, part, ?_⟩, Nat.add_lt_add_left ?_ _⟩
    · intro r hr
      have behind := inside.retry_le r hr
      exact ⟨Nat.lt_succ_of_lt behind.1, Nat.le_succ_of_le behind.2⟩
    · dsimp only
      omega
  · obtain ⟨r, hr, rfl⟩ := Option.map_eq_some_iff.1 (step.symm.trans next)
    have behind := inside.retry_le r hr
    have part := inside.part_le
    refine ⟨⟨?_, ?_, ?_⟩, ?_⟩
    · exact Nat.succ_le_of_lt (Nat.lt_of_le_of_lt behind.2 more)
    · exact Nat.succ_le_of_lt (Nat.lt_of_lt_of_le behind.1 part)
    · rintro _ ⟨⟩
      exact ⟨Nat.lt_succ_self _, Nat.le_refl _⟩
    · unfold left
      rw [hr]
      refine digits_lt (Nat.add_lt_add_left ?_ _) (Nat.sub_le _ _)
      simp only [Retry.spot, Retry.more, Option.elim_some]
      omega

/-! ## The matcher -/

/-- Goes from spot to spot to the end of the text, where only `%` may be left over. -/
def scan (ps : Array PatternItem) (cs : Array Char) (s : Spot) (inside : s.Inside ps.size cs.size) :
    Bool :=
  if more : s.char < cs.size then
    match next : s.next? ps cs[s.char] with
    | some s' => scan ps cs s' (inside.next more next).1
    | none => false
  else
    (ps.extract s.part).all (· == .anyText)
termination_by s.left ps.size cs.size
decreasing_by exact (inside.next more next).2

/-- The matcher starts in front of everything. -/
theorem Spot.inside_start (parts chars : Nat) : ({} : Spot).Inside parts chars :=
  ⟨Nat.zero_le _, Nat.zero_le _, fun _ h => by cases h⟩

/-- Whether the parts, one after the other, stand for the text. -/
def fits (ps : Array PatternItem) (cs : Array Char) : Bool :=
  scan ps cs {} (Spot.inside_start ps.size cs.size)

end Pattern

/-- The truth of `a LIKE pattern`; values without a text leave it open. -/
def Value.like (a pattern : Value) : Truth :=
  match a.toText?, pattern.toText? with
  | some s, some p =>
    .ofBool (Pattern.fits (Pattern.items (upper p).toList).toArray (upper s).toList.toArray)
  | _, _ => .unknown

end TableQuery
