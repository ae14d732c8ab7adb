import Mathlib
import TableQuery.Number.Shortest

/-!
# Rounding to the nearest double

The quotients that round to a double are those of its interval. A double is taken apart into its
significand and the exponent of its last bit, and quotients are compared as rational numbers.
-/

namespace TableQuery.Number

/-! ## Powers -/

theorem zpow_eq_div (a : ℚ) (e : ℤ) : a ^ e = a ^ e.toNat / a ^ (-e).toNat := by
  obtain ⟨n, rfl | rfl⟩ := Int.eq_nat_or_neg e <;> simp

theorem cast_pow2 (n : ℕ) : (pow2 n : ℚ) = 2 ^ n :=
  Nat.cast_pow 2 n

theorem cast_pow10 (n : ℕ) : (pow10 n : ℚ) = 10 ^ n :=
  Nat.cast_pow 10 n

/-! ## Whole numbers -/

variable {n d k num den : ℕ} {x y : ℚ}

/-- A quotient is rounded to the whole number that is at most a half away, and to an even one if it
is a half away. -/
theorem divNearestEven_eq (positive : 0 < d) (low : 2 * (k * d) ≤ 2 * n + d)
    (high : 2 * n ≤ 2 * (k * d) + d)
    (ties : k % 2 = 0 ∨ 2 * (k * d) < 2 * n + d ∧ 2 * n < 2 * (k * d) + d) :
    divNearestEven n d = k := by
  have division : n / d * d + n % d = n := Nat.div_add_mod' n d
  have rest : n % d < d := Nat.mod_lt n positive
  unfold divNearestEven
  generalize n / d = q at division ⊢
  generalize n % d = r at division rest ⊢
  obtain rfl | rfl : k = q ∨ k = q + 1 := by
    by_contra other
    rcases Nat.lt_or_ge k q with below | above
    · have product := Nat.mul_le_mul_right d below
      rw [Nat.succ_mul] at product
      omega
    · have product := Nat.mul_le_mul_right d (by omega : q + 2 ≤ k)
      rw [Nat.add_mul] at product
      omega
  · simp only [beq_iff_eq]
    split_ifs <;> omega
  · rw [Nat.add_one_mul q d] at low high ties
    simp only [beq_iff_eq]
    split_ifs <;> omega

theorem divNearestEven_of_near (positive : 0 < d) (quotient : (n : ℚ) / d = y)
    (low : k - 1 / 2 ≤ y) (high : y ≤ k + 1 / 2)
    (ties : k % 2 = 0 ∨ k - 1 / 2 < y ∧ y < k + 1 / 2) : divNearestEven n d = k := by
  have divisor : (0 : ℚ) < d := Nat.cast_pos.2 positive
  have numerator : (n : ℚ) = y * d := (div_eq_iff divisor.ne').1 quotient
  refine divNearestEven_eq positive ?_ ?_ (ties.imp_right fun strict => ⟨?_, ?_⟩)
  all_goals
    qify
    rw [numerator]
    nlinarith

/-! ## The last bit -/

theorem scaleDown_eq (num den : ℕ) (e : ℤ) :
    ((scaleDown num den e).1 : ℚ) / (scaleDown num den e).2 = num / den / 2 ^ e := by
  rw [zpow_eq_div, scaleDown]
  split
  · have none : (-e).toNat = 0 := by omega
    rw [none, Nat.cast_mul, cast_pow2]
    simp [div_div]
  · have none : e.toNat = 0 := by omega
    rw [none, Nat.cast_mul, cast_pow2]
    simp [div_eq_mul_inv]
    ring

theorem scaleDown_pos (positive : 0 < den) (e : ℤ) : 0 < (scaleDown num den e).2 := by
  rw [scaleDown]
  split
  · exact Nat.mul_pos positive (Nat.two_pow_pos _)
  · exact positive

theorem div_scaleDown_lt (hden : 0 < den) (e : ℤ) :
    (scaleDown num den e).1 / (scaleDown num den e).2 < pow2 53 ↔ (num : ℚ) / den < 2 ^ (e + 53) := by
  have divisor : (0 : ℚ) < (scaleDown num den e).2 := Nat.cast_pos.2 (scaleDown_pos hden e)
  rw [Nat.div_lt_iff_lt_mul (scaleDown_pos hden e), ← Nat.cast_lt (α := ℚ), Nat.cast_mul, cast_pow2,
    ← div_lt_iff₀ divisor, scaleDown_eq, div_lt_iff₀ (by positivity), add_comm, zpow_add₀ two_ne_zero]
  norm_cast

/-- A quotient lies between powers of two that the logarithms of its parts tell. -/
theorem between_powers (hnum : 0 < num) (hden : 0 < den) :
    (2 : ℚ) ^ ((num.log2 : ℤ) - (den.log2 + 1 : ℕ)) ≤ num / den ∧
      (num : ℚ) / den < 2 ^ ((num.log2 + 1 : ℕ) - (den.log2 : ℤ)) := by
  rw [zpow_sub₀ two_ne_zero, zpow_sub₀ two_ne_zero, zpow_natCast, zpow_natCast, zpow_natCast,
    zpow_natCast]
  have divisor : (0 : ℚ) < den := Nat.cast_pos.2 hden
  have numLow : (2 : ℚ) ^ num.log2 ≤ num := mod_cast Nat.log2_self_le hnum.ne'
  have numHigh : (num : ℚ) < 2 ^ (num.log2 + 1) := mod_cast Nat.lt_log2_self
  have denLow : (2 : ℚ) ^ den.log2 ≤ den := mod_cast Nat.log2_self_le hden.ne'
  have denHigh : (den : ℚ) ≤ 2 ^ (den.log2 + 1) := mod_cast Nat.lt_log2_self.le
  exact ⟨div_le_div₀ (Nat.cast_nonneg _) numLow divisor denHigh,
    div_lt_div₀ numHigh denLow (by positivity) (by positivity)⟩

/-- The last bit of a quotient is the 53rd one from the first, or the last one that there is. -/
theorem lastBitExponent_spec (hnum : 0 < num) (hden : 0 < den) :
    -1074 ≤ lastBitExponent num den ∧ (num : ℚ) / den < 2 ^ (lastBitExponent num den + 53) ∧
      (lastBitExponent num den = -1074 ∨ 2 ^ (lastBitExponent num den + 52) ≤ (num : ℚ) / den) := by
  obtain ⟨low, high⟩ := between_powers hnum hden
  have normal : ∃ e, lastBitExponent num den = max (-1074) e ∧ (num : ℚ) / den < 2 ^ (e + 53) ∧
      2 ^ (e + 52) ≤ (num : ℚ) / den := by
    unfold lastBitExponent
    simp only [div_scaleDown_lt hden]
    split <;> rename_i below
    · refine ⟨_, rfl, below, low.trans' (zpow_le_zpow_right₀ one_le_two ?_)⟩
      simp only [Int.ofNat_eq_natCast]
      omega
    · rw [not_lt] at below
      refine ⟨_, rfl, high.trans_le (zpow_le_zpow_right₀ one_le_two ?_), ?_⟩
      · simp only [Int.ofNat_eq_natCast]
        omega
      · rwa [add_assoc, show (1 : ℤ) + 52 = 53 by rfl]
  obtain ⟨e, same, upper, lower⟩ := normal
  rw [same]
  refine ⟨le_max_left _ _, upper.trans_le (zpow_le_zpow_right₀ one_le_two (by omega)), ?_⟩
  rcases max_choice (-1074) e with least | other
  · exact .inl least
  · rw [other]
    exact .inr lower

/-! ## Doubles -/

/-- The significand and the exponent are those of a positive finite double. -/
structure Binary.Finite (b : Binary) : Prop where
  positive : 0 < b.significand
  small : b.significand < 2 ^ 53
  low : -1074 ≤ b.exponent
  high : b.exponent ≤ 971
  normal : b.exponent = -1074 ∨ 2 ^ 52 ≤ b.significand

/-- The bit pattern of a double. -/
def Binary.bits (b : Binary) : ℕ :=
  (b.exponent + 1074).toNat * pow2 52 + b.significand

theorem Binary.finite_ofBits (positive : 0 < n) (finite : n < infinityBits) :
    (Binary.ofBits n).Finite ∧ (Binary.ofBits n).bits = n := by
  have big : pow2 52 = 4503599627370496 := rfl
  have fields : pow2 11 = 2048 := rfl
  unfold infinityBits at finite
  unfold Binary.ofBits
  rw [big, fields]
  dsimp only
  split <;> rename_i zero <;> simp only [beq_iff_eq] at zero
  · have fraction : n % 4503599627370496 = n := by omega
    rw [fraction]
    exact ⟨⟨positive, (by omega : n < 2 ^ 53), Int.le_refl _, (by decide : (-1074 : ℤ) ≤ 971), .inl rfl⟩,
      by simp [Binary.bits]⟩
  · refine ⟨⟨?_, ?_, ?_, ?_, ?_⟩, ?_⟩
    all_goals simp only [Binary.bits, big]
    all_goals omega

/-- The reals of an interval. -/
def Interval.Holds (i : Interval) (x : ℚ) : Prop :=
  if i.closed then i.low * 2 ^ i.exponent ≤ x ∧ x ≤ i.high * 2 ^ i.exponent
  else i.low * 2 ^ i.exponent < x ∧ x < i.high * 2 ^ i.exponent

theorem crossed_le {d n : ℕ} {e b : ℤ} :
    ((crossed d e n b).1 ≤ (crossed d e n b).2 ↔ (d * 10 ^ e : ℚ) ≤ n * 2 ^ b) ∧
      ((crossed d e n b).2 ≤ (crossed d e n b).1 ↔ (n * 2 ^ b : ℚ) ≤ d * 10 ^ e) := by
  have ten : (0 : ℚ) < 10 ^ (-e).toNat := by positivity
  have two : (0 : ℚ) < 2 ^ (-b).toNat := by positivity
  rw [crossed, zpow_eq_div 10 e, zpow_eq_div 2 b, ← mul_div_assoc, ← mul_div_assoc,
    div_le_div_iff₀ ten two, div_le_div_iff₀ two ten]
  constructor
  · rw [← Nat.cast_le (α := ℚ)]
    push_cast [cast_pow2, cast_pow10]
    rfl
  · rw [← Nat.cast_le (α := ℚ)]
    push_cast [cast_pow2, cast_pow10]
    rfl

theorem Interval.contains_iff {i : Interval} {d : ℕ} {e : ℤ} :
    i.contains d e = true ↔ i.Holds (d * 10 ^ e) := by
  unfold contains Holds
  have low := crossed_le (d := d) (e := e) (n := i.low) (b := i.exponent)
  have high := crossed_le (d := d) (e := e) (n := i.high) (b := i.exponent)
  dsimp only
  split
  · rw [Bool.and_eq_true, decide_eq_true_iff, decide_eq_true_iff, low.2, high.1]
  · rw [Bool.and_eq_true, decide_eq_true_iff, decide_eq_true_iff, ← not_le, ← not_le, low.1, high.2,
      not_le, not_le]

theorem Binary.interval_low {b : Binary} (positive : 0 < b.significand) :
    b.significand = 2 ^ 52 ∧ b.exponent ≠ -1074 ∧ (b.interval.low : ℚ) = 4 * b.significand - 1 ∨
      ¬(b.significand = 2 ^ 52 ∧ b.exponent ≠ -1074) ∧ (b.interval.low : ℚ) = 4 * b.significand - 2 := by
  have cast (c : ℕ) (le : c ≤ 4 * b.significand) :
      ((4 * b.significand - c : ℕ) : ℚ) = 4 * b.significand - c := by
    rw [Nat.cast_sub le]
    push_cast
    rfl
  simp only [interval, Bool.and_eq_true, beq_iff_eq, bne_iff_ne]
  split
  · rename_i least
    exact .inl ⟨least.1, least.2, by simpa using cast 1 (by omega)⟩
  · rename_i other
    exact .inr ⟨other, by simpa using cast 2 (by omega)⟩

/-- The ends of the interval of a double, in its last bits. -/
theorem Binary.interval_ends (b : Binary) :
    b.interval.low * (2 : ℚ) ^ b.interval.exponent = b.interval.low / 4 * 2 ^ b.exponent ∧
      b.interval.high * (2 : ℚ) ^ b.interval.exponent = (b.significand + 1 / 2) * 2 ^ b.exponent := by
  have quarter : (2 : ℚ) ^ b.interval.exponent = 2 ^ b.exponent / 4 := by
    rw [interval, zpow_sub₀ two_ne_zero]
    norm_num
  have high : (b.interval.high : ℚ) = 4 * b.significand + 2 := by
    simp only [interval]
    push_cast
    rfl
  rw [quarter, high]
  exact ⟨by ring, by ring⟩

theorem Interval.Holds.bounds {b : Binary} (inside : b.interval.Holds x) :
    b.interval.low / 4 * 2 ^ b.exponent ≤ x ∧ x ≤ (b.significand + 1 / 2) * 2 ^ b.exponent ∧
      (b.significand % 2 = 0 ∨ b.interval.low / 4 * 2 ^ b.exponent < x ∧
        x < (b.significand + 1 / 2) * 2 ^ b.exponent) := by
  obtain ⟨low, high⟩ := b.interval_ends
  rw [Holds, low, high] at inside
  split at inside
  · rename_i closed
    exact ⟨inside.1, inside.2, .inl (beq_iff_eq.1 closed)⟩
  · exact ⟨inside.1.le, inside.2.le, .inr inside⟩

theorem Interval.holds_of_lt {b : Binary} (low : b.interval.low / 4 * 2 ^ b.exponent < x)
    (high : x < (b.significand + 1 / 2) * 2 ^ b.exponent) : b.interval.Holds x := by
  obtain ⟨low', high'⟩ := b.interval_ends
  rw [Holds, low', high']
  split
  · exact ⟨low.le, high.le⟩
  · exact ⟨low, high⟩

theorem Binary.Finite.bits_lt {b : Binary} (finite : b.Finite) : b.bits < infinityBits := by
  have big : pow2 52 = 4503599627370496 := rfl
  have small := finite.small
  have high := finite.high
  rw [bits, infinityBits, big]
  omega

/-- A quotient in the interval of a double has the last bit of the double, or the one before it if
the double is a power of two. -/
theorem Binary.Finite.lastBit {b : Binary} (finite : b.Finite) {e : ℤ} (least : -1074 ≤ e)
    (below : x < 2 ^ (e + 53)) (normal : e = -1074 ∨ 2 ^ (e + 52) ≤ x)
    (low : b.interval.low / 4 * 2 ^ b.exponent ≤ x)
    (high : x ≤ (b.significand + 1 / 2) * 2 ^ b.exponent) :
    e = b.exponent ∨ e = b.exponent - 1 ∧ b.significand = 2 ^ 52 ∧
      (b.interval.low : ℚ) = 4 * b.significand - 1 := by
  have lows := interval_low finite.positive
  have unit : (0 : ℚ) < 2 ^ b.exponent := by positivity
  have small : (b.significand : ℚ) + 1 ≤ 2 ^ 53 := mod_cast finite.small
  have power (c : ℕ) : (2 : ℚ) ^ (b.exponent + c) = 2 ^ c * 2 ^ b.exponent := by
    rw [zpow_add₀ two_ne_zero, zpow_natCast, mul_comm]
  have notAbove : e ≤ b.exponent := by
    by_contra above
    have first := finite.low
    have step : (2 : ℚ) ^ (b.exponent + (53 : ℕ)) ≤ 2 ^ (e + 52) :=
      zpow_le_zpow_right₀ one_le_two (by push_cast; omega)
    have lower := normal.resolve_left (by omega)
    rw [power] at step
    nlinarith
  refine notAbove.eq_or_lt.imp_right fun under => ?_
  have full : 2 ^ 52 ≤ b.significand := finite.normal.resolve_left (by omega)
  have step (c : ℕ) (le : e + 53 ≤ b.exponent + c) : x < 2 ^ c * 2 ^ b.exponent := by
    rw [← power]
    exact below.trans_le (zpow_le_zpow_right₀ one_le_two le)
  rcases lows with ⟨whole, -, lower⟩ | ⟨other, lower⟩
  · refine ⟨?_, whole, lower⟩
    by_contra further
    have upper := step 51 (by push_cast; omega)
    rw [lower, whole] at low
    push_cast at low
    nlinarith
  · have more : 2 ^ 52 + 1 ≤ b.significand := by
      by_contra
      exact other ⟨by omega, by omega⟩
    have cast : (2 : ℚ) ^ 52 + 1 ≤ b.significand := mod_cast more
    have upper := step 52 (by push_cast; omega)
    rw [lower] at low
    nlinarith

/-- A quotient in the interval of a double rounds to the double. -/
theorem nearestBits_of_holds {b : Binary} (finite : b.Finite) (hnum : 0 < num) (hden : 0 < den)
    (inside : b.interval.Holds (num / den)) : nearestBits num den = b.bits := by
  obtain ⟨least, below, normal⟩ := lastBitExponent_spec hnum hden
  obtain ⟨low, high, ties⟩ := inside.bounds
  have last := finite.lastBit least below normal low high
  have scaled := scaleDown_eq num den (lastBitExponent num den)
  have divisor : 0 < (scaleDown num den (lastBitExponent num den)).2 := scaleDown_pos hden _
  have lows := Binary.interval_low finite.positive
  have less := finite.bits_lt.le
  have first := finite.low
  have unit : (0 : ℚ) < 2 ^ b.exponent := by positivity
  unfold nearestBits
  rw [if_neg (by simp [hnum.ne', hden.ne'])]
  dsimp only
  generalize lastBitExponent num den = e at *
  generalize (num : ℚ) / den = x at *
  rcases last with rfl | ⟨rfl, power, lower⟩
  · -- the quotient is rounded at the last bit of the double
    have least : (b.significand : ℚ) - 1 / 2 ≤ b.interval.low / 4 := by
      rcases lows with ⟨-, -, low⟩ | ⟨-, low⟩ <;> rw [low] <;> linarith
    rw [divNearestEven_of_near divisor scaled (k := b.significand)
      (least.trans ((le_div_iff₀ unit).2 low)) ((div_le_iff₀ unit).2 high) (ties.imp_right fun strict =>
        ⟨least.trans_lt ((lt_div_iff₀ unit).2 strict.1), (div_lt_iff₀ unit).2 strict.2⟩)]
    exact min_eq_right less
  · -- the quotient lies below the power of two, and its significand overflows
    have half : (2 : ℚ) ^ (b.exponent - 1) = 2 ^ b.exponent / 2 := by
      rw [zpow_sub₀ two_ne_zero, zpow_one]
    have upper : x < 2 ^ 52 * 2 ^ b.exponent := by
      refine below.trans_eq ?_
      rw [sub_add, zpow_sub₀ two_ne_zero]
      norm_num
      ring
    rw [lower, power] at low
    rw [half] at scaled
    have rounded : divNearestEven _ _ = 2 ^ 53 := divNearestEven_of_near divisor scaled ?_ ?_ (.inl rfl)
    · have big : pow2 52 = 2 ^ 52 := rfl
      rw [rounded]
      rw [Binary.bits, power, big] at less ⊢
      omega
    · rw [le_div_iff₀ (by positivity)]
      push_cast at low ⊢
      linarith
    · rw [div_le_iff₀ (by positivity)]
      push_cast
      linarith

end TableQuery.Number
