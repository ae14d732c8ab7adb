import TableQuery.Proofs.Number.Arithmetic

/-!
# Whole floats

Rounding a finite float down or up to a whole one is exact, and so is taking its absolute value. A
half that is added to a whole float is lost where floats have no halves any more: above `2 ^ 52` the
sum is rounded to the even one of the two neighbours.
-/

namespace TableQuery.Number

open Float.Model UnpackedFloat

variable {f g : Float} {i : ℤ} {n : ℕ} {x : ℚ} {b : Binary}

/-! ## Short integers -/

/-- Up to the power of two that ends the significands, integers are floats. -/
theorem value_of_rounded_int_le (small : i.natAbs ≤ 2 ^ 53) (same : rank f = rank (rounded i)) :
    f.isFinite = true ∧ value f = i := by
  rcases small.lt_or_eq with less | full
  · exact value_of_rounded_int less same
  · have finite : (Float.ofBits 0x4340000000000000).isFinite = true := by decide
    rcases Int.natAbs_eq i with h | h
    · have number : (i : ℚ) = value (Float.ofBits 0x4340000000000000) := by
        rw [value_two_pow, h, full]
        norm_num
      rw [number] at same ⊢
      exact value_of_rounded finite same
    · have number : (i : ℚ) = value (-Float.ofBits 0x4340000000000000) := by
        rw [value_neg finite, value_two_pow, h, full]
        norm_num
      rw [number] at same ⊢
      exact value_of_rounded (isFinite_neg finite) same

theorem value_ofInt_le (small : i.natAbs ≤ 2 ^ 53) :
    (Float.ofInt i).isFinite = true ∧ value (Float.ofInt i) = i :=
  value_of_rounded_int_le small (rank_ofInt i)

theorem value_zero : (0 : Float).isFinite = true ∧ value 0 = 0 := by
  have zero := value_ofNat (n := 0) (by decide)
  rwa [Nat.cast_zero] at zero

theorem value_unit : (1 : Float).isFinite = true ∧ value 1 = 1 := by
  have one := value_ofNat (n := 1) (by decide)
  rwa [Nat.cast_one] at one

theorem value_half : (0.5 : Float).isFinite = true ∧ value 0.5 = 1 / 2 := by
  have parts : ratio 0.5 = (2 ^ 52, 2 ^ 53) := by decide
  refine ⟨by decide, ?_⟩
  rw [value, parts]
  norm_num

theorem value_unit_mul (finite : f.isFinite = true) :
    (1 * f).isFinite = true ∧ value (1 * f) = value f := by
  have product := rank_mul value_unit.1 finite
  rw [value_unit.2, one_mul] at product
  exact value_of_rounded finite product

theorem value_div_unit (finite : f.isFinite = true) :
    (f / 1).isFinite = true ∧ value (f / 1) = value f := by
  have quotient := rank_div finite value_unit.1 (by rw [value_unit.2]; exact one_ne_zero)
  rw [value_unit.2, div_one] at quotient
  exact value_of_rounded finite quotient

/-! ## Absolute values -/

/-- The absolute value of a finite float is the float or its negation. -/
theorem abs_cases (finite : f.isFinite = true) :
    f.abs = f ∧ 0 ≤ value f ∨ f.abs = -f ∧ value f ≤ 0 := by
  have size : f.abs = packed f.toModel.unpack.abs := rfl
  obtain ⟨zero, s, parts⟩ | ⟨b, double, s, number, parts⟩ := unpack_of_isFinite finite
  · cases s with
    | positive =>
      left
      rw [size, parts, zero]
      exact ⟨(congrArg packed parts.symm).trans (packed_unpack f), le_rfl⟩
    | negative =>
      right
      rw [size, parts, zero]
      exact ⟨congrArg (fun u : UnpackedFloat => packed u.neg) parts.symm, le_rfl⟩
  · have positive := double.value_pos.le
    rw [Binary.value] at positive
    cases s with
    | positive =>
      left
      rw [size, parts, number]
      exact ⟨(congrArg packed parts.symm).trans (packed_unpack f), positive⟩
    | negative =>
      right
      rw [size, parts, number]
      refine ⟨congrArg (fun u : UnpackedFloat => packed u.neg) parts.symm, ?_⟩
      simpa [Sign.apply] using positive

theorem value_abs (finite : f.isFinite = true) :
    f.abs.isFinite = true ∧ value f.abs = |value f| := by
  rcases abs_cases finite with ⟨same, sign⟩ | ⟨opposite, sign⟩
  · rw [same, abs_of_nonneg sign]
    exact ⟨finite, rfl⟩
  · rw [opposite, abs_of_nonpos sign, value_neg finite]
    exact ⟨isFinite_neg finite, rfl⟩

/-! ## Down and up -/

/-- A finite float with a fraction is short. -/
theorem value_lt_of_not_isWhole (finite : f.isFinite = true) (fraction : isWhole f = false) :
    |value f| < 2 ^ 52 := by
  rw [← Bool.not_eq_true, isWhole_iff] at fraction
  obtain ⟨zero, -⟩ | ⟨b, double, s, number, -⟩ := unpack_of_isFinite finite
  · exact absurd ⟨0, by rw [zero, Int.cast_zero]⟩ fraction
  · have size : |value f| = b.value := by
      rw [number, Binary.value]
      cases s <;> simp [Sign.apply, abs_mul, abs_of_pos (zpow_pos two_pos b.exponent : (0 : ℚ) < _)]
    have low : b.exponent < 0 := by
      by_contra high
      refine fraction ⟨s.apply b.significand * 2 ^ b.exponent.toNat, ?_⟩
      rw [number, Int.cast_mul, Int.cast_pow, Int.cast_ofNat, ← zpow_natCast,
        Int.toNat_of_nonneg (not_lt.1 high)]
    rw [size]
    calc b.value < 2 ^ (b.exponent + 53) := double.value_lt
      _ ≤ 2 ^ (52 : ℤ) := zpow_le_zpow_right₀ one_le_two (by omega)
      _ = 2 ^ 52 := zpow_natCast 2 52

/-- Rounding down is exact. -/
theorem value_roundDown (finite : f.isFinite = true) :
    (roundDown f).isFinite = true ∧ value (roundDown f) = ⌊value f⌋ := by
  unfold roundDown
  rw [finite, Bool.true_and]
  cases whole : isWhole f with
  | true =>
    obtain ⟨i, number⟩ := isWhole_iff.1 whole
    rw [number, Int.floor_intCast]
    exact ⟨finite, number⟩
  | false =>
    rw [wholePart_eq]
    have short := abs_lt.1 (value_lt_of_not_isWhole finite whole)
    have low : -2 ^ 52 ≤ ⌊value f⌋ := by
      rw [Int.le_floor]
      push_cast
      exact short.1.le
    have high : ⌊value f⌋ < 2 ^ 52 := by
      rw [Int.floor_lt]
      push_cast
      exact short.2
    exact value_ofInt (by omega)

/-- Rounding up is exact. -/
theorem value_roundUp (finite : f.isFinite = true) :
    (roundUp f).isFinite = true ∧ value (roundUp f) = ⌈value f⌉ := by
  obtain ⟨rest, number⟩ := value_roundDown (isFinite_neg finite)
  refine ⟨isFinite_neg rest, ?_⟩
  rw [roundUp, value_neg rest, number, value_neg finite, Int.floor_neg]
  push_cast
  ring

/-! ## Halves -/

/-- What lies in the interval of a double is rounded to it. -/
theorem value_of_holds (double : b.Finite) (positive : 0 < x) (inside : b.interval.Holds x)
    (same : rank f = rank (rounded x)) : f.isFinite = true ∧ value f = b.value := by
  obtain ⟨g, finite, number⟩ := double.exists_value
  have rounds {y : ℚ} (above : 0 < y) (holds : b.interval.Holds y) : rank (rounded y) = b.bits := by
    have parts : (y.num.natAbs : ℚ) / y.den = y := by
      rw [← abs_eq_div, abs_of_pos above]
    rw [rank_rounded, if_neg above.asymm,
      nearestBits_of_holds double (by simpa using above.ne') y.pos (parts.symm ▸ holds)]
  have kept : b.interval.Holds b.value := by
    have lows := Binary.interval_low double.positive
    have unit : (0 : ℚ) < 2 ^ b.exponent := by positivity
    refine Interval.holds_of_lt ?_ ?_
    · rw [Binary.value]
      refine mul_lt_mul_of_pos_right ?_ unit
      rcases lows with ⟨-, -, low⟩ | ⟨-, low⟩ <;> rw [low] <;> linarith
    · rw [Binary.value]
      exact mul_lt_mul_of_pos_right (by linarith) unit
  have alike : rank f = rank g := by
    rw [same, rounds positive inside, ← rank_rounded_value finite, number,
      rounds double.value_pos kept]
  have finite' : f.isFinite = true := by rwa [isFinite_iff_rank, alike, ← isFinite_iff_rank]
  exact ⟨finite', (value_eq_of_rank finite' finite alike).trans number⟩

/-- Half a unit above an even significand is rounded down. -/
theorem holds_half_above (even : b.significand % 2 = 0) (positive : 0 < b.significand) :
    b.interval.Holds ((b.significand + 1 / 2) * 2 ^ b.exponent) := by
  obtain ⟨low, high⟩ := b.interval_ends
  have closed : b.interval.closed = true := beq_iff_eq.2 even
  have unit : (0 : ℚ) < 2 ^ b.exponent := by positivity
  rw [Interval.Holds, if_pos closed, low, high]
  refine ⟨mul_le_mul_of_nonneg_right ?_ unit.le, le_rfl⟩
  rcases Binary.interval_low positive with ⟨-, -, least⟩ | ⟨-, least⟩ <;> rw [least] <;> linarith

/-- Half a unit below an even significand that has a smaller one below it is rounded up. -/
theorem holds_half_below (even : b.significand % 2 = 0) (more : 2 ^ 52 < b.significand) :
    b.interval.Holds ((b.significand - 1 / 2) * 2 ^ b.exponent) := by
  obtain ⟨low, high⟩ := b.interval_ends
  have closed : b.interval.closed = true := beq_iff_eq.2 even
  have unit : (0 : ℚ) < 2 ^ b.exponent := by positivity
  rw [Interval.Holds, if_pos closed, low, high]
  constructor
  · refine mul_le_mul_of_nonneg_right ?_ unit.le
    rcases Binary.interval_low (Nat.zero_lt_of_lt more) with ⟨least, -⟩ | ⟨-, least⟩
    · omega
    · rw [least]
      linarith
  · exact mul_le_mul_of_nonneg_right (by linarith) unit.le

theorem finite_of_full (low : 2 ^ 52 ≤ n) (high : n < 2 ^ 53) :
    (⟨n, 0⟩ : Binary).Finite ∧ (⟨n, 0⟩ : Binary).value = n := by
  constructor
  · exact ⟨by dsimp only; omega, high, by simp, by simp, .inr low⟩
  · rw [Binary.value, zpow_zero, mul_one]

/-- The double behind the last short integer. -/
theorem finite_two_pow : (⟨2 ^ 52, 1⟩ : Binary).Finite ∧ (⟨2 ^ 52, 1⟩ : Binary).value = 2 ^ 53 := by
  constructor
  · exact ⟨by decide, by decide, by decide, by decide, .inr le_rfl⟩
  · rw [Binary.value]
    norm_num

/-- Where floats have no halves, a half is rounded to the even one of its neighbours. -/
theorem exists_holds_half (low : 2 ^ 52 ≤ n) (small : n ≤ 2 ^ 53) : ∃ b : Binary, b.Finite ∧
    b.interval.Holds (n + 1 / 2) ∧ b.value = if n % 2 = 1 then (n + 1 : ℕ) else (n : ℕ) := by
  have least : (⟨2 ^ 52, 1⟩ : Binary).interval.low = 4 * 2 ^ 52 - 1 := rfl
  by_cases odd : n % 2 = 1
  · rw [if_pos odd]
    by_cases less : n + 1 < 2 ^ 53
    · obtain ⟨double, number⟩ := finite_of_full (n := n + 1) (by omega) less
      refine ⟨_, double, ?_, number⟩
      have below := @holds_half_below ⟨n + 1, 0⟩ (by dsimp only; omega) (by dsimp only; omega)
      have half : ((n + 1 : ℕ) - 1 / 2 : ℚ) * 2 ^ (0 : ℤ) = n + 1 / 2 := by
        rw [zpow_zero]
        push_cast
        ring
      rwa [half] at below
    · -- the next number is a power of two, so its lower neighbour is only half as far away
      have full : n + 1 = 2 ^ 53 := by omega
      have number : (n : ℚ) + 1 = 2 ^ 53 := by exact_mod_cast full
      refine ⟨_, finite_two_pow.1, ?_, by rw [finite_two_pow.2, full]; norm_num⟩
      obtain ⟨lower, upper⟩ := (⟨2 ^ 52, 1⟩ : Binary).interval_ends
      have closed : (⟨2 ^ 52, 1⟩ : Binary).interval.closed = true := rfl
      rw [Interval.Holds, if_pos closed, lower, upper, least]
      constructor
      · norm_num
        linarith
      · norm_num
        linarith
  · rw [if_neg odd]
    by_cases less : n < 2 ^ 53
    · obtain ⟨double, number⟩ := finite_of_full low less
      refine ⟨_, double, ?_, number⟩
      have above := @holds_half_above ⟨n, 0⟩ (by dsimp only; omega) (by dsimp only; omega)
      rwa [zpow_zero, mul_one] at above
    · have full : n = 2 ^ 53 := by omega
      refine ⟨_, finite_two_pow.1, Interval.holds_of_lt ?_ ?_, by rw [finite_two_pow.2, full]; norm_num⟩
      · rw [least, full]
        norm_num
      · rw [full]
        norm_num

/-- A natural number and a half, as a float, has the natural number as its whole part, unless it is
an odd one above `2 ^ 52`: then the half makes it the next number. -/
theorem floor_half (small : n ≤ 2 ^ 53) (same : rank f = rank (rounded (n + 1 / 2))) :
    f.isFinite = true ∧
      ⌊value f⌋ = if 2 ^ 52 < n ∧ n % 2 = 1 then (n + 1 : ℕ) else (n : ℕ) := by
  by_cases low : n < 2 ^ 52
  · -- there are halves, and the sum is exact
    obtain ⟨g, finite, exact⟩ :=
      @exists_value (2 * n + 1) (-1) (by omega) (by decide) (by decide)
    have number : value g = n + 1 / 2 := by
      rw [exact, zpow_neg_one]
      push_cast
      ring
    rw [← number] at same
    obtain ⟨finite', rest⟩ := value_of_rounded finite same
    refine ⟨finite', ?_⟩
    rw [if_neg (by omega), rest, number, Int.floor_eq_iff, Int.cast_natCast]
    constructor <;> linarith
  · obtain ⟨b, double, inside, number⟩ := exists_holds_half (not_lt.1 low) small
    obtain ⟨finite, rest⟩ := value_of_holds double (by positivity) inside same
    have odd : 2 ^ 52 < n ∧ n % 2 = 1 ↔ n % 2 = 1 := by omega
    refine ⟨finite, ?_⟩
    simp only [odd]
    rw [rest, number]
    split <;> exact Int.floor_natCast _

end TableQuery.Number
