import TableQuery.Function.Scalar
import TableQuery.Proofs.Number.Whole

/-!
# Rounding integers

`ROUND`, `CEIL`, `FLOOR` and `ABS` take integers through floats. Up to `2 ^ 53` an integer comes back
from `CEIL` and `FLOOR` as it is, and from `ABS` as its absolute value. `ROUND` adds a half first,
which an odd integer above `2 ^ 52` does not survive.
-/

namespace TableQuery

open Number Calendar

variable {i : Int64} {k : ℤ} {f : Float} {clock : Clock} {name : String}

/-! ## Floats as values -/

theorem wholeFloat?_of_value (finite : f.isFinite = true) (number : value f = k)
    (small : k.natAbs ≤ 2 ^ 53) : wholeFloat? f = some (Int64.ofInt k) := by
  have whole : isWhole f = true := isWhole_iff.2 ⟨k, number⟩
  have part : wholePart f = k := by rw [wholePart_eq, number, Int.floor_intCast]
  have least : Int64.minValue.toInt = -2 ^ 63 := by decide
  have most : Int64.maxValue.toInt = 2 ^ 63 - 1 := by decide
  have fits : (Int64.minValue.toInt ≤ k && k ≤ Int64.maxValue.toInt) = true := by
    rw [least, most, Bool.and_eq_true, decide_eq_true_iff, decide_eq_true_iff]
    omega
  rw [wholeFloat?, finite, whole, part, int64?, if_pos fits]
  rfl

/-- A whole float is shown as the integer that it denotes. -/
theorem ofFloat_of_value (finite : f.isFinite = true) (number : value f = k)
    (small : k.natAbs ≤ 2 ^ 53) : Value.ofFloat f = .integer (Int64.ofInt k) := by
  rw [Value.ofFloat, wholeFloat?_of_value finite number small]

/-! ## Scales -/

theorem tenTo_zero : tenTo 0 = 1 := by
  have same : ((0 : Float) == 0) = true := by decide
  rw [tenTo, if_pos same]

/-- An integer without places behind the point is scaled to itself. -/
theorem value_scaled (small : k.natAbs ≤ 2 ^ 53) :
    (tenTo 0 * Float.ofInt k).isFinite = true ∧ value (tenTo 0 * Float.ofInt k) = k := by
  obtain ⟨whole, number⟩ := value_ofInt_le small
  obtain ⟨scaled, number'⟩ := value_unit_mul whole
  rw [tenTo_zero]
  exact ⟨scaled, number'.trans number⟩

theorem ofFloat_unscaled (finite : f.isFinite = true) (number : value f = i.toInt)
    (small : i.toInt.natAbs ≤ 2 ^ 53) : Value.ofFloat (f / tenTo 0) = .integer i := by
  obtain ⟨finite', same⟩ := value_div_unit finite
  rw [tenTo_zero, ofFloat_of_value finite' (same.trans number) small, Int64.ofInt_toInt]

theorem roundUp_integer (small : i.toInt.natAbs ≤ 2 ^ 53) :
    Value.ofFloat (roundUp (tenTo 0 * Float.ofInt i.toInt) / tenTo 0) = .integer i := by
  obtain ⟨scaled, number⟩ := value_scaled small
  obtain ⟨up, ceil⟩ := value_roundUp scaled
  rw [number, Int.ceil_intCast] at ceil
  exact ofFloat_unscaled up ceil small

theorem roundDown_integer (small : i.toInt.natAbs ≤ 2 ^ 53) :
    Value.ofFloat (roundDown (tenTo 0 * Float.ofInt i.toInt) / tenTo 0) = .integer i := by
  obtain ⟨scaled, number⟩ := value_scaled small
  obtain ⟨down, floor⟩ := value_roundDown scaled
  rw [number, Int.floor_intCast] at floor
  exact ofFloat_unscaled down floor small

/-! ## Halves -/

/-- The integer that rounding makes of one: odd ones above `2 ^ 52` are moved away from zero. -/
def roundedInteger (i : ℤ) : ℤ :=
  if 2 ^ 52 < i.natAbs ∧ i % 2 = 1 then i + i.sign else i

theorem roundedInteger_natCast (n : ℕ) :
    roundedInteger n = if 2 ^ 52 < n ∧ n % 2 = 1 then (n + 1 : ℕ) else (n : ℕ) := by
  have odd : 2 ^ 52 < (n : ℤ).natAbs ∧ (n : ℤ) % 2 = 1 ↔ 2 ^ 52 < n ∧ n % 2 = 1 := by omega
  rw [roundedInteger]
  simp only [odd]
  split
  · rw [Int.sign_eq_one_of_pos (by omega)]
    rfl
  · rfl

theorem roundedInteger_neg (i : ℤ) : roundedInteger (-i) = -roundedInteger i := by
  have odd : 2 ^ 52 < (-i).natAbs ∧ -i % 2 = 1 ↔ 2 ^ 52 < i.natAbs ∧ i % 2 = 1 := by omega
  rw [roundedInteger, roundedInteger]
  simp only [odd]
  split
  · rw [Int.sign_neg]
    ring
  · rfl

theorem natAbs_roundedInteger_le (small : k.natAbs ≤ 2 ^ 53) :
    (roundedInteger k).natAbs ≤ 2 ^ 53 := by
  rcases Int.natAbs_eq k with h | h <;> rw [h]
  · rw [roundedInteger_natCast]
    split <;> omega
  · rw [roundedInteger_neg, roundedInteger_natCast]
    split <;> omega

theorem roundedInteger_eq_self_iff : roundedInteger k = k ↔ k.natAbs ≤ 2 ^ 52 ∨ 2 ∣ k := by
  rw [roundedInteger]
  split
  · rename_i odd
    have moved : k.sign ≠ 0 := by
      rw [Ne, Int.sign_eq_zero_iff_zero]
      omega
    omega
  · omega

theorem value_roundDown_half {n : ℕ} (finite : f.isFinite = true) (number : value f = n)
    (small : n ≤ 2 ^ 53) : (roundDown (f + 0.5)).isFinite = true ∧
      value (roundDown (f + 0.5)) = roundedInteger n := by
  have sum := rank_add finite value_half.1
  rw [number, value_half.2] at sum
  obtain ⟨finite', floor⟩ := floor_half small sum
  obtain ⟨down, whole⟩ := value_roundDown finite'
  rw [whole, floor, roundedInteger_natCast]
  exact ⟨down, rfl⟩

/-- Below zero everything is mirrored. -/
theorem value_roundUp_half {n : ℕ} (finite : f.isFinite = true) (number : value f = -n)
    (small : n ≤ 2 ^ 53) : (roundUp (f - 0.5)).isFinite = true ∧
      value (roundUp (f - 0.5)) = roundedInteger (-n) := by
  have mirrored : (-n - 1 / 2 : ℚ) = -(n + 1 / 2) := by ring
  have difference := rank_sub finite value_half.1
  rw [number, value_half.2, mirrored] at difference
  have real : (f - 0.5).isNaN = false := isNaN_of_rank difference (isNaN_rounded _)
  have sum : rank (-(f - 0.5)) = rank (rounded (n + 1 / 2)) := by
    rw [rank_neg real, difference, rank_rounded_neg, Int.neg_neg]
  obtain ⟨finite', floor⟩ := floor_half small sum
  obtain ⟨down, whole⟩ := value_roundDown finite'
  rw [roundUp, value_neg down, whole, floor, roundedInteger_neg, roundedInteger_natCast]
  refine ⟨isFinite_neg down, ?_⟩
  push_cast
  rfl

/-- An integer with a half more of its size, without a fraction. -/
theorem value_roundHalfAway (small : k.natAbs ≤ 2 ^ 53) :
    (roundHalfAway (Float.ofInt k) 0).isFinite = true ∧
      value (roundHalfAway (Float.ofInt k) 0) = roundedInteger k := by
  obtain ⟨whole, number⟩ := value_ofInt_le small
  obtain ⟨scaled, number'⟩ := value_scaled small
  have negative : Float.ofInt k < 0 ↔ k < 0 := by
    rw [lt_iff_value whole value_zero.1, number, value_zero.2]
    exact_mod_cast Iff.rfl
  rw [roundHalfAway]
  rw [tenTo_zero] at scaled number' ⊢
  by_cases h : k < 0
  · obtain ⟨n, rfl⟩ : ∃ n : ℕ, k = -n := ⟨k.natAbs, by omega⟩
    rw [Int.cast_neg, Int.cast_natCast] at number'
    obtain ⟨up, rest⟩ := value_roundUp_half scaled number' (by omega)
    obtain ⟨finite, same⟩ := value_div_unit up
    rw [if_pos (negative.2 h), same]
    exact ⟨finite, rest⟩
  · obtain ⟨n, rfl⟩ : ∃ n : ℕ, k = n := ⟨k.natAbs, by omega⟩
    rw [Int.cast_natCast] at number'
    obtain ⟨down, rest⟩ := value_roundDown_half scaled number' (by omega)
    obtain ⟨finite, same⟩ := value_div_unit down
    rw [if_neg fun less => h (negative.1 less), same]
    exact ⟨finite, rest⟩

/-! ## Calls -/

/-- `CEIL` and `FLOOR` give an integer up to `2 ^ 53` back and `ABS` its absolute value. `ROUND`
moves the odd ones above `2 ^ 52` by one, and gives back exactly the others. -/
theorem rounding_of_integers (small : i.toInt.natAbs ≤ 2 ^ 53) :
    ScalarFunction.ceil.call clock name [.integer i] = .ok (.integer i) ∧
      ScalarFunction.floor.call clock name [.integer i] = .ok (.integer i) ∧
      ScalarFunction.abs.call clock name [.integer i] = .ok (.integer (Int64.ofInt |i.toInt|)) ∧
      ScalarFunction.round.call clock name [.integer i] =
        .ok (.integer (Int64.ofInt (roundedInteger i.toInt))) ∧
      (ScalarFunction.round.call clock name [.integer i] = .ok (.integer i) ↔
        i.toInt.natAbs ≤ 2 ^ 52 ∨ 2 ∣ i.toInt) := by
  obtain ⟨whole, number⟩ := value_ofInt_le small
  obtain ⟨positive, size⟩ := value_abs whole
  obtain ⟨finite, away⟩ := value_roundHalfAway small
  have ceil : ScalarFunction.ceil.call clock name [.integer i] =
      .ok (.ofFloat (roundUp (tenTo 0 * Float.ofInt i.toInt) / tenTo 0)) := rfl
  have floor : ScalarFunction.floor.call clock name [.integer i] =
      .ok (.ofFloat (roundDown (tenTo 0 * Float.ofInt i.toInt) / tenTo 0)) := rfl
  have abs : ScalarFunction.abs.call clock name [.integer i] =
      .ok (.ofFloat (Float.ofInt i.toInt).abs) := rfl
  have round : ScalarFunction.round.call clock name [.integer i] =
      .ok (.ofFloat (roundHalfAway (Float.ofInt i.toInt) 0)) := rfl
  rw [ofFloat_of_value finite away (natAbs_roundedInteger_le small)] at round
  rw [number, ← Int.cast_abs] at size
  have short : |i.toInt|.natAbs ≤ 2 ^ 53 := by rwa [Int.natAbs_abs]
  refine ⟨?_, ?_, ?_, round, ?_⟩
  · rw [ceil, roundUp_integer small]
  · rw [floor, roundDown_integer small]
  · rw [abs, ofFloat_of_value positive size short]
  · have bound := natAbs_roundedInteger_le small
    have fits : (Int64.ofInt (roundedInteger i.toInt)).toInt = roundedInteger i.toInt :=
      Int64.toInt_ofInt_of_le (by omega) (by omega)
    rw [round, Except.ok.injEq, Value.integer.injEq, ← Int64.toInt_inj, fits,
      roundedInteger_eq_self_iff]

/-- The first integer above `2 ^ 52` comes back from all of them but `ROUND`. -/
theorem rounding_of_integers_odd :
    let i : Int64 := 4503599627370497
    i.toInt.natAbs ≤ 2 ^ 53 ∧
      ScalarFunction.ceil.call {} "CEIL" [.integer i] = .ok (.integer i) ∧
      ScalarFunction.floor.call {} "FLOOR" [.integer i] = .ok (.integer i) ∧
      ScalarFunction.abs.call {} "ABS" [.integer i] = .ok (.integer i) ∧
      ScalarFunction.round.call {} "ROUND" [.integer i] = .ok (.integer 4503599627370498) := by
  intro i
  have small : i.toInt.natAbs ≤ 2 ^ 53 := by decide
  have moved : Int64.ofInt (roundedInteger i.toInt) = 4503599627370498 := by decide
  obtain ⟨ceil, -⟩ := @rounding_of_integers i {} "CEIL" small
  obtain ⟨-, floor, -⟩ := @rounding_of_integers i {} "FLOOR" small
  obtain ⟨-, -, abs, -⟩ := @rounding_of_integers i {} "ABS" small
  obtain ⟨-, -, -, round, -⟩ := @rounding_of_integers i {} "ROUND" small
  rw [moved] at round
  exact ⟨small, ceil, floor, abs, round⟩

end TableQuery
