import TableQuery.Proofs.Value.KeyEquality
import TableQuery.Proofs.Value.Seconds

/-!
# The numbers of a value

A value that denotes an integer also denotes a float, and both stand at one place in the line. Where
it also denotes a moment, that moment is near the number.
-/

namespace TableQuery

open Calendar Number Text

variable {clock : Clock} {cs ds : List Char} {f g : Float} {i : Int64} {m n : Moment} {v : Value}

/-! ## Integers as floats -/

theorem rank_nearest_one (n : ℕ) : rank (nearest n 1) = rank (rounded n) := by
  have whole : rounded n = nearest n 1 := by simp [rounded]
  rw [whole]

theorem toInt_of_int64? {k : ℤ} (h : int64? k = some i) : i.toInt = k ∧ k.natAbs ≤ 2 ^ 63 := by
  unfold int64? at h
  split at h
  · rename_i range
    rw [Bool.and_eq_true, decide_eq_true_iff, decide_eq_true_iff] at range
    have least : Int64.minValue.toInt = -2 ^ 63 := by decide
    have most : Int64.maxValue.toInt = 2 ^ 63 - 1 := by decide
    rw [least, most] at range
    cases h
    exact ⟨Int64.toInt_ofInt_of_le (by omega) (by omega), by omega⟩
  · cases h

theorem readInteger?_eq_some (h : readInteger? cs = some i) : ∃ negative ds,
    splitSign cs = (negative, ds) ∧ ds ≠ [] ∧ (∀ c ∈ ds, isDigit c = true) ∧
      ofDigits ds ≤ 2 ^ 63 ∧ i.toInt = if negative then -(ofDigits ds : ℤ) else ofDigits ds := by
  unfold readInteger? at h
  split at h
  rename_i negative ds split
  split at h
  · rename_i digits
    simp only [Bool.and_eq_true, Bool.not_eq_true', List.isEmpty_eq_false_iff, List.all_eq_true]
      at digits
    obtain ⟨number, bound⟩ := toInt_of_int64? h
    refine ⟨negative, ds, split, digits.1, digits.2, ?_, number⟩
    split at bound <;> omega
  · cases h

/-- A run of digits is read as a whole number. -/
theorem readDecimal?_digits (nonempty : ds ≠ []) (digits : ∀ c ∈ ds, isDigit c = true) :
    readDecimal? ds = some ⟨ofDigits ds, 0⟩ := by
  have denotes : Denotes ds (ofDigits ds) ds [] := by
    refine ⟨(List.append_nil ds).symm, nonempty, ?_, ?_⟩
    · rwa [List.append_nil]
    · rw [List.append_nil, List.length_nil, pow_zero, mul_one]
  rw [denotes.readDecimal?_eq, List.append_nil]
  rfl

/-- A whole number in decimal becomes the float nearest to it. -/
theorem rank_toFloat_of_whole {k : ℕ} (bound : k ≤ 2 ^ 63) :
    rank (Decimal.toFloat ⟨k, 0⟩) = rank (rounded k) := by
  rcases Nat.eq_zero_or_pos k with rfl | positive
  · exact rank_ofNat 0
  · have size := digitCount_le positive
    have short : digitCount k - 1 < 19 := (Nat.pow_lt_pow_iff_right (by decide)).1
      (size.trans_lt (bound.trans_lt (by decide)))
    unfold digitCount at short
    unfold Decimal.toFloat exponentBound
    dsimp only
    rw [if_neg, if_neg, if_pos le_rfl]
    · show rank (nearest (k * 1) 1) = _
      rw [mul_one, rank_nearest_one]
    · omega
    · simp
      omega

/-- A text that spells an integer is also read as a float, at the same place. -/
theorem readFloat?_of_readInteger? (h : readInteger? cs = some i) :
    ∃ g, readFloat? cs = some g ∧ rank g = rank (Float.ofInt i.toInt) := by
  obtain ⟨negative, ds, split, nonempty, digits, bound, number⟩ := readInteger?_eq_some h
  have float := rank_toFloat_of_whole bound
  have read : readFloat? cs = some (if negative then -Decimal.toFloat ⟨ofDigits ds, 0⟩
      else Decimal.toFloat ⟨ofDigits ds, 0⟩) := by
    unfold readFloat?
    rw [split]
    dsimp only
    rw [readDecimal?_digits nonempty digits]
    rfl
  refine ⟨_, read, ?_⟩
  rw [rank_ofInt, number]
  cases negative with
  | false => simpa using float
  | true =>
    rw [if_pos rfl, if_pos rfl, rank_neg (Decimal.isNaN_toFloat _), float, ← rank_rounded_neg]
    simp

/-! ## Integers and floats of a value -/

/-- A whole float is a float that an integer is rounded to. -/
theorem rank_of_wholeFloat? (h : wholeFloat? f = some i) : rank f = rank (Float.ofInt i.toInt) := by
  unfold wholeFloat? at h
  split at h
  · rename_i whole
    rw [Bool.and_eq_true] at whole
    obtain ⟨k, exact⟩ := isWhole_iff.1 whole.2
    have floor := wholePart_eq f
    rw [exact, Int.floor_intCast] at floor
    rw [rank_ofInt, (toInt_of_int64? h).1, floor, ← exact, rank_rounded_value whole.1]
  · cases h

namespace Value

/-- A value that denotes an integer denotes a float at the same place. -/
theorem toFloat?_of_toInteger? (h : v.toInteger? = some i) :
    ∃ g, v.toFloat? = some g ∧ rank g = rank (Float.ofInt i.toInt) := by
  cases v with
  | integer j =>
    cases h
    exact ⟨_, rfl, rfl⟩
  | float f => exact ⟨f, rfl, rank_of_wholeFloat? h⟩
  | text s =>
    obtain ⟨cs, numeral, read⟩ := Option.bind_eq_some_iff.1 h
    rw [toFloat?, numeral]
    obtain spelled | ⟨-, whole⟩ := Option.or_eq_some_iff.1 read
    · exact readFloat?_of_readInteger? spelled
    · obtain ⟨g, float, whole⟩ := Option.bind_eq_some_iff.1 whole
      exact ⟨g, float, rank_of_wholeFloat? whole⟩
  | _ => cases h

end Value

/-! ## Moments of numbers -/

theorem Calendar.Moment.Near.congr (near : n.Near f) (same : rank f = rank g) : n.Near g := by
  obtain ⟨finite, second, above, below, whole⟩ := near
  have finite' : g.isFinite = true := by rwa [isFinite_iff_rank, ← same, ← isFinite_iff_rank]
  rw [value_eq_of_rank finite finite' same] at second above below whole
  exact ⟨finite', second, above, below, whole⟩

namespace Value

/-- The moment of a number is near its float, unless the number is a text that a layout reads. -/
theorem near_of_toMoment? (layout : v.readByLayout? clock = none) (float : v.toFloat? = some f)
    (h : v.toMoment? clock = some n) : n.Near f := by
  cases v with
  | integer i =>
    cases float
    exact near_of_ofSeconds? h
  | float g =>
    cases float
    exact near_of_momentOfFloat? h
  | text s =>
    have number : (text s).isNumber = true := by
      rw [isNumber, float]
      exact Bool.or_true _
    rw [readByLayout?, if_pos number] at layout
    obtain ⟨cs, numeral, read⟩ := Option.bind_eq_some_iff.1 float
    rw [toMoment?, layout, numeral] at h
    dsimp only [Option.bind_eq_bind, Option.bind_some] at h
    split at h
    · rename_i i spelled
      obtain ⟨g, read', same⟩ := readFloat?_of_readInteger? spelled
      cases read.symm.trans read'
      exact (near_of_ofSeconds? h).congr same.symm
    · obtain ⟨g, read', rounded⟩ := Option.bind_eq_some_iff.1 h
      cases read.symm.trans read'
      exact near_of_momentOfFloat? rounded
  | moment m => cases float
  | _ => cases h

end Value

end TableQuery
