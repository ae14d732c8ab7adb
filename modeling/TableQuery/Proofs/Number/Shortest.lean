import TableQuery.Proofs.Number.Rounding

/-!
# The shortest digits of a double

The search for the shortest digits finds a number of the interval of the double: seventeen digits are
always enough.
-/

namespace TableQuery.Number

variable {n num den : ℕ}

/-- One of the two neighbours of the quotient among the multiples of the power of ten is in the
interval. -/
def Interval.Hits (i : Interval) (num den : ℕ) (e : ℤ) : Prop :=
  let d := num * pow10 (-e).toNat / (den * pow10 e.toNat)
  i.contains d e = true ∨ i.contains (d + 1) e = true

/-- The search finds a number of the interval if one of its steps can. -/
theorem Interval.contains_shortest {i : Interval} {fuel : ℕ} {e : ℤ}
    (hit : ∃ k < fuel, i.Hits num den (e - k)) :
    i.contains (i.shortest num den fuel e).1 (i.shortest num den fuel e).2 = true := by
  induction fuel generalizing e with
  | zero =>
    obtain ⟨k, none, -⟩ := hit
    exact absurd none (Nat.not_lt_zero k)
  | succ fuel ih =>
    rw [shortest]
    split
    · split <;> assumption
    · assumption
    · assumption
    · rename_i low high
      refine ih ?_
      obtain ⟨_ | k, bound, found⟩ := hit
      · rw [Nat.cast_zero, Int.sub_zero] at found
        rcases found with found | found
        · rw [low] at found
          cases found
        · rw [high] at found
          cases found
      · refine ⟨k, by omega, ?_⟩
        rwa [Nat.cast_succ, add_comm, ← sub_sub] at found

theorem digitCount_le (positive : 0 < n) : 10 ^ (digitCount n - 1) ≤ n := by
  rw [digitCount]
  rcases Nat.eq_or_lt_of_le (Nat.length_toDigits_pos (b := 10) (n := n)) with one | more
  · rw [← one]
    exact positive
  · by_contra small
    have := (Nat.length_toDigits_le_iff (by decide) (by omega)).2 (not_le.1 small)
    omega

theorem lt_digitCount (n : ℕ) : n < 10 ^ digitCount n :=
  (Nat.length_toDigits_le_iff (by decide) Nat.length_toDigits_pos).1 (Nat.le_refl _)

theorem leadingExponent_le (hnum : 0 < num) (hden : 0 < den) :
    (10 : ℚ) ^ leadingExponent num den ≤ num / den := by
  have divisor : (0 : ℚ) < den := Nat.cast_pos.2 hden
  rw [leadingExponent, le_div_iff₀ divisor]
  split <;> rename_i order
  · have positive : 0 < num / den := Nat.div_pos order hden
    have count : 0 < digitCount (num / den) := Nat.length_toDigits_pos
    have whole : 10 ^ (digitCount (num / den) - 1) * den ≤ num :=
      (Nat.mul_le_mul_right den (digitCount_le positive)).trans (Nat.div_mul_le_self num den)
    have exponent : ((digitCount (num / den) : ℤ) - 1) = (digitCount (num / den) - 1 : ℕ) := by omega
    rw [exponent, zpow_natCast]
    exact_mod_cast whole
  · have small := lt_digitCount ((den - 1) / num)
    rw [Nat.div_lt_iff_lt_mul hnum] at small
    have whole : den ≤ 10 ^ digitCount ((den - 1) / num) * num := by omega
    rw [zpow_neg, zpow_natCast, inv_mul_le_iff₀ (by positivity)]
    exact_mod_cast whole

/-- A power of ten that is small beside a double has a multiple in its interval. -/
theorem Binary.Finite.hits {b : Binary} (finite : b.Finite) (hden : 0 < den)
    (value : (num : ℚ) / den = b.significand * 2 ^ b.exponent) {e : ℤ}
    (fine : (10 : ℚ) ^ e * 10 ^ 16 ≤ b.significand * 2 ^ b.exponent) : b.interval.Hits num den e := by
  have lows := Binary.interval_low finite.positive
  have small : (b.significand : ℚ) + 1 ≤ 2 ^ 53 := mod_cast finite.small
  have unit : (0 : ℚ) < 2 ^ b.exponent := by positivity
  have grain : (0 : ℚ) < 10 ^ e := by positivity
  have divisor : 0 < den * pow10 e.toNat := Nat.mul_pos hden (Nat.pow_pos (by decide))
  have divisor' : (0 : ℚ) < (den * pow10 e.toNat : ℕ) := Nat.cast_pos.2 divisor
  have scaled : ((num * pow10 (-e).toNat : ℕ) : ℚ) / (den * pow10 e.toNat : ℕ) * 10 ^ e
      = b.significand * 2 ^ b.exponent := by
    rw [← value, zpow_eq_div 10 e]
    push_cast [cast_pow10]
    field_simp
  rw [Interval.Hits]
  have below : ((num * pow10 (-e).toNat / (den * pow10 e.toNat) : ℕ) : ℚ) * 10 ^ e
      ≤ b.significand * 2 ^ b.exponent := by
    rw [← scaled]
    exact mul_le_mul_of_nonneg_right Nat.cast_div_le grain.le
  have above : b.significand * 2 ^ b.exponent
      < (((num * pow10 (-e).toNat / (den * pow10 e.toNat) : ℕ) : ℚ) + 1) * 10 ^ e := by
    rw [← scaled]
    refine mul_lt_mul_of_pos_right ((div_lt_iff₀ divisor').2 ?_) grain
    exact_mod_cast (Nat.div_lt_iff_lt_mul divisor).1 (Nat.lt_succ_self _)
  generalize num * pow10 (-e).toNat / (den * pow10 e.toNat) = d at below above ⊢
  rw [Interval.contains_iff, Interval.contains_iff]
  -- the nearer neighbour is at most half a step away
  rcases le_total (2 * ((b.significand : ℚ) * 2 ^ b.exponent - d * 10 ^ e)) (10 ^ e) with near | near
  · refine .inl (Interval.holds_of_lt ?_ (by linarith))
    rcases lows with ⟨power, -, low⟩ | ⟨-, low⟩
    · rw [low]
      rw [power] at fine below above near ⊢
      push_cast at *
      linarith
    · rw [low]
      nlinarith
  · refine .inr (Interval.holds_of_lt ?_ ?_)
    · rcases lows with ⟨-, -, low⟩ | ⟨-, low⟩ <;> rw [low] <;> push_cast <;> nlinarith
    · push_cast
      nlinarith

theorem Binary.Finite.contains_shortest {b : Binary} (finite : b.Finite) :
    b.interval.contains b.shortest.1 b.shortest.2 = true := by
  have two (k : ℕ) : 0 < pow2 k := Nat.two_pow_pos k
  have hnum : 0 < b.significand * pow2 b.exponent.toNat := Nat.mul_pos finite.positive (two _)
  have value : ((b.significand * pow2 b.exponent.toNat : ℕ) : ℚ) / pow2 (-b.exponent).toNat
      = b.significand * 2 ^ b.exponent := by
    rw [zpow_eq_div 2 b.exponent, Nat.cast_mul, cast_pow2, cast_pow2, mul_div_assoc]
  refine Interval.contains_shortest ⟨16, by decide, finite.hits (two _) value ?_⟩
  have leading := leadingExponent_le hnum (two (-b.exponent).toNat)
  rw [value] at leading
  rwa [zpow_sub₀ (by norm_num), Nat.cast_ofNat, zpow_ofNat, div_mul_cancel₀ _ (by norm_num)]

end TableQuery.Number
