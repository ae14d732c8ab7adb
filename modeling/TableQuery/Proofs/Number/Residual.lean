import TableQuery.Proofs.Number.Nearest

/-!
# Rounding by residual bits

The machine keeps of a quotient its whole part and two bits: whether the rest is half of the last
place or more, and whether anything is left below that. These bits are enough to shift the last
place up and to round in the end, and the pattern that comes out is the one of the nearest double.
-/

namespace TableQuery.Number

open Float.Model UnpackedFloat

variable {n d num den : ℕ} {e : ℤ}

/-! ## Residual bits -/

/-- The whole part of a quotient with its residual bits. -/
def residual (n d : ℕ) : ExtendedMantissa where
  mantissa := n / d
  roundBit := decide (d ≤ 2 * (n % d))
  stickyBit := decide (n % d ≠ 0 ∧ 2 * (n % d) ≠ d)

theorem residual_of_fraction (positive : 0 < d) :
    .ofMantissaAndAccuracy (n / d) (accuracyOfFraction (n % d) d) = residual n d := by
  unfold residual accuracyOfFraction
  generalize n % d = r
  rcases Nat.eq_zero_or_pos r with rfl | some
  · rw [if_pos rfl]
    simp [ExtendedMantissa.ofMantissaAndAccuracy, positive.ne']
  rw [if_neg some.ne']
  rcases lt_trichotomy (2 * r) d with h | h | h
  · rw [Nat.compare_eq_lt.2 h]
    simp [ExtendedMantissa.ofMantissaAndAccuracy, h, h.ne, some.ne']
  · rw [Nat.compare_eq_eq.2 h]
    simp [ExtendedMantissa.ofMantissaAndAccuracy, h]
  · rw [Nat.compare_eq_gt.2 h]
    simp [ExtendedMantissa.ofMantissaAndAccuracy, h.le, h.ne', some.ne']

theorem shiftRightOne_residual (positive : 0 < d) :
    (residual n d).shiftRightOne = residual n (d * 2) := by
  have rest : n % d < d := Nat.mod_lt n positive
  have carried : n % (d * 2) = n % d + d * (n / d % 2) := Nat.mod_mul
  unfold residual ExtendedMantissa.shiftRightOne
  rw [carried, Nat.div_div_eq_div_mul]
  generalize n % d = r at rest ⊢
  -- the bit that is shifted out says whether the rest is half of the doubled divisor or more
  obtain even | odd := Nat.mod_two_eq_zero_or_one (n / d)
  · rw [even]
    congr 1
    · exact (decide_eq_false (by omega)).symm
    · rw [← Bool.decide_or, decide_eq_decide]
      omega
  · rw [odd]
    congr 1
    · exact (decide_eq_true (by omega)).symm
    · rw [← Bool.decide_or, decide_eq_decide]
      omega

theorem shiftRight_residual (positive : 0 < d) (k : ℕ) :
    residual n d >>> k = residual n (d * 2 ^ k) := by
  show k.repeat ExtendedMantissa.shiftRightOne (residual n d) = _
  induction k with
  | zero => rw [pow_zero, mul_one]; rfl
  | succ k ih => rw [Nat.repeat, ih, shiftRightOne_residual (by positivity), pow_succ, mul_assoc]

theorem roundedMantissa_residual (n d : ℕ) :
    (residual n d).roundedMantissa = divNearestEven n d := by
  unfold residual divNearestEven ExtendedMantissa.roundedMantissa
  dsimp only
  generalize n % d = r
  generalize n / d = q
  rcases lt_trichotomy (2 * r) d with h | h | h
  · rw [if_pos h, decide_eq_false h.not_ge]
    cases decide (r ≠ 0 ∧ 2 * r ≠ d) <;> rfl
  · rw [if_neg h.not_lt, if_neg h.not_gt, decide_eq_true h.ge, decide_eq_false (by omega)]
    show q + q % 2 = _
    obtain even | odd := Nat.mod_two_eq_zero_or_one q
    · rw [even]
      rfl
    · rw [odd]
      rfl
  · rw [if_neg h.asymm, if_pos h, decide_eq_true h.le, decide_eq_true (by omega)]
    rfl

/-! ## Packed patterns -/

/-- The pattern of a significand and an exponent, after the sign bit. Too large ones become
infinite. -/
theorem toNat_pack {m : ℕ} (s : Sign) (positive : 0 < m) (small : m < 2 ^ 53) (low : -1074 ≤ e)
    (normal : e = -1074 ∨ 2 ^ 52 ≤ m) :
    (UnpackedFloat.pack .binary64 (.finite s m e positive)).toNat =
      s.toBitVec.toNat * 2 ^ 63 + min infinityBits ((e + 1074).toNat * 2 ^ 52 + m) := by
  have top : infinityBits = 2047 * 2 ^ 52 := rfl
  have full : m.log2 + 1 = Format.mantissaBits .binary64 ↔ 2 ^ 52 ≤ m := by
    rw [← Nat.le_log2 positive.ne']
    have last := (Nat.log2_lt positive.ne').2 small
    show m.log2 + 1 = 53 ↔ _
    omega
  have bias : e + Format.exponentBias .binary64 + (52 : ℕ) = e + 1075 := by
    show e + 1023 + 52 = _
    omega
  unfold UnpackedFloat.pack
  rw [bias]
  dsimp only
  -- infinite, with the leading bit left out, or below the least exponent with every bit kept
  split_ifs with overflow implicit
  · rw [packedInfinity, toNat_packComponents]
    show (_ * 2 ^ 11 + 2047) * 2 ^ 52 + 0 = _
    change 2 ^ 11 ≤ _ at overflow
    omega
  · rw [full] at implicit
    rw [toNat_packComponents, BitVec.toNat_ofNat, BitVec.toNat_ofNat]
    change ¬ 2 ^ 11 ≤ _ at overflow
    show (_ * 2 ^ 11 + _ % 2 ^ 11) * 2 ^ 52 + m % 2 ^ 52 = _
    omega
  · rw [full] at implicit
    rw [toNat_packComponents, BitVec.toNat_ofNat]
    show (_ * 2 ^ 11 + 0) * 2 ^ 52 + m % 2 ^ 52 = _
    omega

/-! ## Rounded quotients -/

theorem targetExponent_eq (m : ℕ) (e : ℤ) : Format.targetExponent .binary64 (totalExponent m e)
    = max (m.log2 + 1 + e - 53) (-1074) :=
  rfl

theorem shiftToTargetExponent_residual (positive : 0 < d) :
    shiftToTargetExponent .binary64 (n / d) e (accuracyOfFraction (n % d) d) =
      let k := (max ((n / d).log2 + 1 + e - 53) (-1074) - e).toNat
      (residual n (d * 2 ^ k), e + k) := by
  rw [shiftToTargetExponent, targetExponent_eq, shiftToExponent, residual_of_fraction positive]
  dsimp only
  rw [shiftRight_residual positive]

/-- The last bit of a quotient is the one that its whole part asks for. -/
theorem targetExponent_of_quotient (hnum : 0 < num) (hden : 0 < den) (hd : 0 < d)
    (scaled : (n : ℚ) / d = num / den / 2 ^ e) (fine : e ≤ lastBitExponent num den) :
    max ((n / d).log2 + 1 + e - 53) (-1074) = lastBitExponent num den := by
  obtain ⟨least, below, normal⟩ := lastBitExponent_spec hnum hden
  generalize lastBitExponent num den = t at *
  have unit : (0 : ℚ) < 2 ^ e := by positivity
  have quotient : (num : ℚ) / den = n / d * 2 ^ e := ((eq_div_iff unit.ne').1 scaled).symm
  have divisor : (0 : ℚ) < d := Nat.cast_pos.2 hd
  have above {k : ℕ} (h : n / d < 2 ^ k) : (num : ℚ) / den < 2 ^ (e + k) := by
    rw [quotient, zpow_add_nat]
    refine mul_lt_mul_of_pos_right ?_ unit
    rw [div_lt_iff₀ divisor]
    exact_mod_cast (Nat.div_lt_iff_lt_mul hd).1 h
  have apart {i j : ℤ} (low : (2 : ℚ) ^ i ≤ num / den) (high : (num : ℚ) / den < 2 ^ j) : i < j :=
    (zpow_lt_zpow_iff_right₀ one_lt_two).1 (low.trans_lt high)
  -- both places are 52 below the leading bit of the quotient, or the least one
  rcases Nat.eq_zero_or_pos (n / d) with zero | positive
  · have none := above (k := 0) (by omega)
    rw [zero, Nat.log2_zero]
    rcases normal with rfl | normal
    · omega
    · have := apart normal none
      omega
  · have high := above Nat.lt_log2_self
    have low : (2 : ℚ) ^ (e + (n / d).log2) ≤ num / den := by
      rw [quotient, zpow_add_nat]
      refine mul_le_mul_of_nonneg_right ?_ unit.le
      exact le_trans (by exact_mod_cast Nat.log2_self_le positive.ne') Nat.cast_div_le
    have first := apart low below
    rcases normal with rfl | normal
    · omega
    · have last := apart normal high
      omega

/-- What is left of rounding once the significand is whole: it may be one bit too long. -/
def carried (s : Sign) (m : ℕ) (e : ℤ) : UnpackedFloat :=
  let (extended, e) := shiftToTargetExponent .binary64 m e .exact
  if h : extended.mantissa = 0 then .zero s
  else .finite s extended.mantissa e (Nat.pos_of_ne_zero h)

theorem toNat_pack_carried {m : ℕ} (s : Sign) (small : m ≤ 2 ^ 53) (least : -1074 ≤ e)
    (normal : e = -1074 ∨ 2 ^ 52 ≤ m) :
    (UnpackedFloat.pack .binary64 (carried s m e)).toNat =
      s.toBitVec.toNat * 2 ^ 63 + min infinityBits ((e + 1074).toNat * 2 ^ 52 + m) := by
  have whole := @shiftToTargetExponent_residual m 1 e one_pos
  rw [Nat.div_one, Nat.mod_one, accuracyOfFraction, if_pos rfl] at whole
  unfold carried
  rw [whole]
  dsimp only
  rcases Nat.eq_zero_or_pos m with rfl | positive
  · rw [dif_pos (show (residual 0 _).mantissa = 0 from Nat.zero_div _)]
    show (packedZero .binary64 s).toNat = _
    rw [packedZero, toNat_packComponents]
    show (_ * 2 ^ 11 + 0) * 2 ^ 52 + 0 = _
    omega
  rcases small.lt_or_eq with small | rfl
  · have last := (Nat.log2_lt positive.ne').2 small
    have none : (max (m.log2 + 1 + e - 53 : ℤ) (-1074) - e).toNat = 0 := by omega
    have kept : (residual m (1 * 2 ^ 0)).mantissa = m := by simp [residual]
    rw [none, dif_neg (kept.trans_ne positive.ne'),
      toNat_pack s _ (kept.trans_lt small) (by omega) (by omega), kept]
    simp
  · -- the carry makes the significand a power of two, so that one more shift loses nothing
    have one : (max ((2 ^ 53 : ℕ).log2 + 1 + e - 53 : ℤ) (-1074) - e).toNat = 1 := by
      rw [Nat.log2_two_pow]
      omega
    have halved : (residual (2 ^ 53) (1 * 2 ^ 1)).mantissa = 2 ^ 52 := rfl
    rw [one, dif_neg (by decide), toNat_pack s _ (by decide) (by omega) (.inr halved.ge), halved]
    omega

/-- Rounding a quotient by its residual bits yields the pattern of the nearest double. -/
theorem toNat_pack_roundWithAccuracy (s : Sign) (hnum : 0 < num) (hden : 0 < den) (hd : 0 < d)
    (scaled : (n : ℚ) / d = num / den / 2 ^ e) (fine : e ≤ lastBitExponent num den) :
    (UnpackedFloat.pack .binary64
      (roundWithAccuracy .binary64 s (n / d) e (accuracyOfFraction (n % d) d))).toNat =
      s.toBitVec.toNat * 2 ^ 63 + nearestBits num den := by
  obtain ⟨least, below, normal⟩ := lastBitExponent_spec hnum hden
  have target := targetExponent_of_quotient hnum hden hd scaled fine
  show (UnpackedFloat.pack .binary64 (carried s (shiftToTargetExponent .binary64 (n / d) e
    (accuracyOfFraction (n % d) d)).1.roundedMantissa (shiftToTargetExponent .binary64 (n / d) e
    (accuracyOfFraction (n % d) d)).2)).toNat = _
  rw [shiftToTargetExponent_residual hd, target]
  dsimp only
  rw [roundedMantissa_residual, Int.toNat_of_nonneg (sub_nonneg.2 fine), add_sub_cancel]
  have divisor : 0 < d * 2 ^ (lastBitExponent num den - e).toNat := by positivity
  have rescaled : (n : ℚ) / (d * 2 ^ (lastBitExponent num den - e).toNat : ℕ) =
      num / den / 2 ^ lastBitExponent num den := by
    have shift : e + (lastBitExponent num den - e).toNat = lastBitExponent num den := by omega
    rw [← shift, zpow_add₀ two_ne_zero, zpow_natCast, ← div_div, ← scaled, div_div]
    push_cast
    rw [shift]
  rw [nearestBits_eq hnum hden least below normal divisor rescaled]
  generalize lastBitExponent num den = t at *
  have unit : (0 : ℚ) < 2 ^ t := by positivity
  apply toNat_pack_carried s _ least
  · refine normal.imp_right fun normal => le_divNearestEven divisor ?_
    rwa [rescaled, le_div_iff₀ unit, ← zpow_add_nat]
  · refine divNearestEven_le divisor ?_
    rw [rescaled, div_le_iff₀ unit, ← zpow_add_nat]
    exact below.le

end TableQuery.Number
