import TableQuery.Function.Scalar
import TableQuery.Proofs.Text.Upper
import TableQuery.Proofs.Value.NumberKeys

/-!
# The integer of a text

`INTEGER` reads a text as an integer or else as a float. A text that starts like a number is read as
all coercions read it; beyond the range of floats it becomes the least or the largest 64-bit integer.
But the names of the infinities and of what is not a number are read, too, although no coercion takes
them for numbers.
-/

namespace TableQuery

open Number Text Calendar

variable {cs : List Char} {f : Float} {i : Int64} {s : String}

/-! ## What is read as a number -/

/-- What does not start like a number is no decimal number. -/
theorem readDecimal?_of_not_looksNumeric (h : looksNumeric cs = false) :
    readDecimal? (splitSign cs).2 = none := by
  have point : isDigit '.' = false := by decide
  unfold looksNumeric at h
  generalize (splitSign cs).2 = body at h ⊢
  split at h
  · simp [readDecimal?, splitFraction, point, h]
  · rename_i c rest other
    by_cases same : c = '.'
    · subst same
      cases rest with
      | nil => simp [readDecimal?, splitFraction, point]
      | cons d rest => exact (other d rest rfl rfl).elim
    · have none : splitFraction (c :: rest) = ([], c :: rest) := by
        unfold splitFraction
        split
        · rename_i first
          cases first
          exact absurd rfl same
        · rfl
      simp [readDecimal?, none, h]
  · rfl

theorem readInteger?_of_not_looksNumeric (h : looksNumeric cs = false) :
    readInteger? cs = none := by
  cases read : readInteger? cs with
  | none => rfl
  | some i =>
    obtain ⟨negative, ds, split, nonempty, digits, -⟩ := readInteger?_eq_some read
    have decimal := readDecimal?_of_not_looksNumeric h
    rw [split, readDecimal?_digits nonempty digits] at decimal
    cases decimal

/-! ## Names of what is not finite -/

/-- The integer that a text becomes by being, in any case and behind an optional sign, a name of
infinity or of what is not a number. -/
def namedInteger? (s : String) : Option Int64 :=
  let (negative, body) := splitSign (trimChars s.toList)
  if sameIgnoringCase (String.ofList body) "nan" then some 0
  else if ["inf", "infinity"].any (sameIgnoringCase (String.ofList body)) then
    some (if negative then Int64.minValue else Int64.maxValue)
  else none

theorem roundToInt64_notANumber :
    roundToInt64 notANumber = 0 ∧ roundToInt64 (-notANumber) = 0 := by
  decide +kernel

theorem roundToInt64_infinity :
    roundToInt64 (1 / 0) = Int64.maxValue ∧ roundToInt64 (-(1 / 0)) = Int64.minValue := by
  decide +kernel

/-- A word in lower case is spelled by a text in any case. -/
theorem sameIgnoringCase_word_iff {word : String} (lower : word.toList.map Char.toLower = word.toList) :
    sameIgnoringCase (String.ofList cs) word = true ↔ String.ofList (cs.map Char.toLower) = word := by
  rw [sameIgnoringCase_iff, lower, String.toList_ofList, ← String.toList_inj, String.toList_ofList]

theorem namedInteger?_eq (s : String) : namedInteger? s =
    (readSpecial? (splitSign (trimChars s.toList)).2).map fun f =>
      roundToInt64 (if (splitSign (trimChars s.toList)).1 then -f else f) := by
  unfold namedInteger?
  generalize splitSign (trimChars s.toList) = parts
  obtain ⟨negative, body⟩ := parts
  have nan := @sameIgnoringCase_word_iff body "nan" rfl
  have inf := @sameIgnoringCase_word_iff body "inf" rfl
  have infinity := @sameIgnoringCase_word_iff body "infinity" rfl
  simp only [List.any_cons, List.any_nil, Bool.or_false, Bool.or_eq_true, nan, inf, infinity]
  unfold readSpecial?
  generalize String.ofList (body.map Char.toLower) = word
  obtain ⟨strange, strange'⟩ := roundToInt64_notANumber
  obtain ⟨most, least⟩ := roundToInt64_infinity
  split
  · rename_i name
    subst name
    cases negative <;> simp [strange, strange']
  · split
    · rename_i name
      rcases name with rfl | rfl <;> cases negative <;> simp [most, least]
    · rename_i other other'
      split <;> simp_all

/-! ## The cast -/

/-- `INTEGER` takes the integer that a text spells, else the float that it denotes, rounded, else
what it names. -/
theorem toInteger_text (s : String) : ScalarFunction.toInteger (.text s) =
    .ofOption (((Value.text s).toIntegerStrictly?.or
      (((Value.text s).toFloat?.map roundToInt64).or (namedInteger? s))).map .integer) := by
  have strictly : (Value.text s).toIntegerStrictly? = (Value.numeral? s).bind readInteger? := rfl
  have float : (Value.text s).toFloat? = (Value.numeral? s).bind readFloat? := rfl
  have cast : ScalarFunction.toInteger (.text s) =
      .ofOption (((readInteger? (trimChars s.toList)).or
        ((readFloat? (trimChars s.toList)).map roundToInt64)).map .integer) := rfl
  rw [strictly, float, cast, namedInteger?_eq, Value.numeral?]
  generalize trimChars s.toList = cs
  cases numeral : looksNumeric cs with
  | true =>
    rw [readSpecial?_of_looksNumeric numeral]
    simp
  | false =>
    rw [readInteger?_of_not_looksNumeric numeral, readFloat?,
      show splitSign cs = ((splitSign cs).1, (splitSign cs).2) from rfl]
    dsimp only
    rw [readDecimal?_of_not_looksNumeric numeral]
    simp [Function.comp_def]

/-- A float that is a number but not finite is one of the infinities. -/
theorem eq_infinity (number : f.isNaN = false) (infinite : f.isFinite = false) :
    f = 1 / 0 ∨ f = -(1 / 0) := by
  have size : magnitude f = infinityBits := by
    rw [← Bool.not_eq_true, isNaN_iff] at number
    rw [← Bool.not_eq_true, isFinite_iff] at infinite
    omega
  have positive : signOf (1 / 0) = .positive ∧ magnitude (1 / 0) = infinityBits :=
    ⟨rfl, by decide +kernel⟩
  have negative : signOf (-(1 / 0)) = .negative ∧ magnitude (-(1 / 0)) = infinityBits :=
    ⟨rfl, by decide +kernel⟩
  cases sign : signOf f with
  | positive => exact .inl (eq_of_parts (sign.trans positive.1.symm) (size.trans positive.2.symm))
  | negative => exact .inr (eq_of_parts (sign.trans negative.1.symm) (size.trans negative.2.symm))

theorem roundToInt64_of_infinite (number : f.isNaN = false) (infinite : f.isFinite = false) :
    roundToInt64 f = if f < 0 then Int64.minValue else Int64.maxValue := by
  obtain ⟨most, least⟩ := roundToInt64_infinity
  rcases eq_infinity number infinite with rfl | rfl
  · rw [most, if_neg (by decide +kernel)]
  · rw [least, if_pos (by decide +kernel)]

/-- What is spelled as an integer is a number, and what is a number is no name. -/
theorem toFloat?_of_toIntegerStrictly? (h : (Value.text s).toIntegerStrictly? = some i) :
    (Value.text s).toFloat? ≠ none := by
  obtain ⟨cs, numeral, read⟩ := Option.bind_eq_some_iff.1 h
  obtain ⟨g, float, -⟩ := readFloat?_of_readInteger? read
  have denotes : (Value.text s).toFloat? = some g := Option.bind_eq_some_iff.2 ⟨cs, numeral, float⟩
  rw [denotes]
  exact Option.some_ne_none g

theorem namedInteger?_of_toFloat? (h : (Value.text s).toFloat? ≠ none) : namedInteger? s = none := by
  have numeral : looksNumeric (trimChars s.toList) = true := by
    rw [← Bool.not_eq_false]
    intro other
    refine h ?_
    show (Value.numeral? s).bind readFloat? = none
    rw [Value.numeral?, other]
    rfl
  rw [namedInteger?_eq, readSpecial?_of_looksNumeric numeral]
  rfl

/-- The text denotes a finite number. -/
def DenotesFinite (s : String) : Prop :=
  ∃ f, (Value.text s).toFloat? = some f ∧ f.isFinite = true

/-- The cast of a text succeeds. It is the integer that the text spells; else the float that the text
denotes, rounded, and at the ends of the 64-bit range if it is infinite; else what the text names, and
else NULL. So it is NULL for all texts but those that denote a finite number, except for the names
and for decimal numbers that are too large for a finite float. -/
theorem integer_of_text (clock : Clock) (name s : String) : ∃ v,
    ScalarFunction.integer.call clock name [.text s] = .ok v ∧
      (v = .null ↔ (Value.text s).toFloat? = none ∧ namedInteger? s = none) ∧
      (∀ i, (Value.text s).toIntegerStrictly? = some i → v = .integer i) ∧
      (∀ f, (Value.text s).toIntegerStrictly? = none → (Value.text s).toFloat? = some f →
        v = .integer (if f.isFinite then roundToInt64 f
          else if f < 0 then Int64.minValue else Int64.maxValue)) ∧
      (∀ i, namedInteger? s = some i → (Value.text s).toFloat? = none ∧ v = .integer i) ∧
      ((v = .null ↔ ¬ DenotesFinite s) ↔
        namedInteger? s = none ∧ ∀ f, (Value.text s).toFloat? = some f → f.isFinite = true) := by
  refine ⟨ScalarFunction.toInteger (.text s), rfl, ?_⟩
  have spelled := @toFloat?_of_toIntegerStrictly? (s := s)
  have named := @namedInteger?_of_toFloat? s
  have number := @Value.isNaN_toFloat?_text s
  rw [toInteger_text, DenotesFinite]
  generalize (Value.text s).toIntegerStrictly? = strictly at *
  generalize (Value.text s).toFloat? = float at *
  cases strictly with
  | some i =>
    obtain ⟨f, rfl⟩ := Option.ne_none_iff_exists'.1 (spelled i rfl)
    rw [named (Option.some_ne_none f)]
    simp [Value.ofOption]
  | none =>
    cases float with
    | some f =>
      rw [named (Option.some_ne_none f)]
      cases finite : f.isFinite with
      | true => simp [Value.ofOption, finite]
      | false =>
        simp [Value.ofOption, finite, roundToInt64_of_infinite (number rfl) finite]
    | none => cases namedInteger? s <;> simp [Value.ofOption]

/-- A name of an infinity is cast to an integer, and a numeral to the integer that it spells. -/
theorem integer_of_text_named :
    namedInteger? " -Inf " = some Int64.minValue ∧
      (Value.text "+042").toIntegerStrictly? = some 42 ∧
      ScalarFunction.integer.call {} "INTEGER" [.text " -Inf "] = .ok (.integer Int64.minValue) ∧
      ScalarFunction.integer.call {} "INTEGER" [.text "+042"] = .ok (.integer 42) := by
  have named : namedInteger? " -Inf " = some Int64.minValue := by decide +kernel
  have spelled : (Value.text "+042").toIntegerStrictly? = some 42 := by decide +kernel
  obtain ⟨v, call, -, -, -, byName, -⟩ := integer_of_text {} "INTEGER" " -Inf "
  obtain ⟨w, call', -, byDigits, -⟩ := integer_of_text {} "INTEGER" "+042"
  rw [call, call', (byName _ named).2, byDigits _ spelled]
  exact ⟨named, spelled, rfl, rfl⟩

end TableQuery
