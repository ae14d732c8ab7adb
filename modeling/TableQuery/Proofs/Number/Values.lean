import TableQuery.Number.Exact
import TableQuery.Proofs.Number.Patterns

/-!
# The numbers that floats denote

A finite float denotes a rational number, and finite floats are ordered as these numbers are. Both
zeros denote zero.
-/

namespace TableQuery.Number

open Float.Model UnpackedFloat

/-! ## Magnitudes -/

namespace Binary

/-- The number that a significand and an exponent denote. -/
def value (b : Binary) : ℚ :=
  b.significand * 2 ^ b.exponent

variable {b c : Binary}

theorem Finite.value_pos (finite : b.Finite) : 0 < b.value := by
  have positive : (0 : ℚ) < b.significand := Nat.cast_pos.2 finite.positive
  rw [value]
  positivity

theorem Finite.value_lt (finite : b.Finite) : b.value < 2 ^ (b.exponent + 53) := by
  have small : (b.significand : ℚ) < 2 ^ 53 := mod_cast finite.small
  rw [value, add_comm, zpow_add₀ two_ne_zero]
  exact mul_lt_mul_of_pos_right (by exact_mod_cast small) (by positivity)

theorem Finite.le_value (finite : b.Finite) (other : b.exponent ≠ -1074) :
    2 ^ (b.exponent + 52) ≤ b.value := by
  have full : (2 : ℚ) ^ 52 ≤ b.significand := mod_cast finite.normal.resolve_left other
  rw [value, add_comm, zpow_add₀ two_ne_zero]
  exact mul_le_mul_of_nonneg_right (by exact_mod_cast full) (by positivity)

/-- A larger exponent makes a larger number. -/
theorem Finite.value_lt_of_exponent (hb : b.Finite) (hc : c.Finite)
    (h : b.exponent < c.exponent) : b.value < c.value := by
  have other : c.exponent ≠ -1074 := by
    have low := hb.low
    omega
  calc b.value < 2 ^ (b.exponent + 53) := hb.value_lt
    _ ≤ 2 ^ (c.exponent + 52) := zpow_le_zpow_right₀ one_le_two (by omega)
    _ ≤ c.value := hc.le_value other

theorem value_lt_of_significand (same : b.exponent = c.exponent)
    (h : b.significand < c.significand) : b.value < c.value := by
  rw [value, value, same]
  exact mul_lt_mul_of_pos_right (by exact_mod_cast h) (by positivity)

/-- Numbers are ordered by their exponents and then by their significands. -/
theorem Finite.value_lt_iff (hb : b.Finite) (hc : c.Finite) : b.value < c.value ↔
    b.exponent < c.exponent ∨ b.exponent = c.exponent ∧ b.significand < c.significand := by
  constructor
  · intro less
    rcases lt_trichotomy b.exponent c.exponent with h | h | h
    · exact .inl h
    · refine .inr ⟨h, ?_⟩
      by_contra above
      rcases (not_lt.1 above).eq_or_lt with same | greater
      · rw [value, value, same, h] at less
        exact less.ne rfl
      · exact less.not_gt (value_lt_of_significand h.symm greater)
    · exact absurd (hc.value_lt_of_exponent hb h) less.not_gt
  · rintro (h | ⟨same, h⟩)
    · exact hb.value_lt_of_exponent hc h
    · exact value_lt_of_significand same h

theorem value_ofBits_zero : (ofBits 0).value = 0 := by
  rw [value]
  exact zero_mul _

theorem value_nonneg (b : Binary) : 0 ≤ b.value := by
  rw [value]
  positivity

end Binary

/-! ## Floats -/

variable {f g : Float}

/-- The number that a finite float denotes. -/
def value (f : Float) : ℚ :=
  (ratio f).1 / (ratio f).2

theorem ratio_eq (f : Float) : ratio f =
    ((signOf f).apply ((Binary.ofBits (magnitude f)).significand
        * pow2 (Binary.ofBits (magnitude f)).exponent.toNat : ℕ),
      pow2 (-(Binary.ofBits (magnitude f)).exponent).toNat) := by
  have low : magnitude f < 2 ^ 63 := Nat.mod_lt _ (by decide)
  unfold ratio
  show (if f.toBits.toNat / 2 ^ 63 % 2 == 1 then _ else _, _) = _
  cases sign : signOf f with
  | positive =>
    have zero : f.toBits.toNat / 2 ^ 63 = 0 := by
      rw [toBits_of_positive sign]
      omega
    rw [zero]
    rfl
  | negative =>
    have one : f.toBits.toNat / 2 ^ 63 = 1 := by
      rw [toBits_of_negative sign]
      omega
    rw [one]
    rfl

theorem value_of_positive (sign : signOf f = .positive) :
    value f = (Binary.ofBits (magnitude f)).value := by
  rw [value, ratio_eq, sign, Binary.value, zpow_eq_div]
  push_cast [Sign.apply, cast_pow2]
  ring

theorem value_of_negative (sign : signOf f = .negative) :
    value f = -(Binary.ofBits (magnitude f)).value := by
  rw [value, ratio_eq, sign, Binary.value, zpow_eq_div]
  push_cast [Sign.apply, cast_pow2]
  ring

/-- A finite float is a zero, or a sign and a significand with an exponent. -/
theorem unpack_of_isFinite (finite : f.isFinite = true) :
    (value f = 0 ∧ ∃ s, f.toModel.unpack = .zero s) ∨ ∃ b : Binary, ∃ double : b.Finite, ∃ s : Sign,
      value f = s.apply b.significand * 2 ^ b.exponent ∧
        f.toModel.unpack = .finite s b.significand b.exponent double.positive := by
  have below := isFinite_iff.1 finite
  rw [unpack_eq_decode]
  rcases Nat.eq_zero_or_pos (magnitude f) with zero | positive
  · refine .inl ⟨?_, signOf f, ?_⟩
    · cases sign : signOf f with
      | positive => rw [value_of_positive sign, zero, Binary.value_ofBits_zero]
      | negative => rw [value_of_negative sign, zero, Binary.value_ofBits_zero, neg_zero]
    · rw [zero]
      rfl
  · have double := (Binary.finite_ofBits positive below).1
    refine .inr ⟨_, double, signOf f, ?_, decode_of_finite below rfl double.positive⟩
    cases sign : signOf f with
    | positive =>
      rw [value_of_positive sign]
      rfl
    | negative =>
      rw [value_of_negative sign, Binary.value, ← neg_mul]
      simp [Sign.apply]

/-- Where a finite float stands in the line: at the zeros, on their right or on their left. -/
theorem place_of_isFinite (finite : f.isFinite = true) :
    (value f = 0 ∧ place f = toLex (0, toLex (0, 0))) ∨ ∃ b : Binary, b.Finite ∧
      (value f = b.value ∧ place f = toLex (1, toLex (b.exponent, (b.significand : ℤ))) ∨
        value f = -b.value ∧ place f = toLex (-1, toLex (-b.exponent, -(b.significand : ℤ)))) := by
  unfold place
  obtain ⟨zero, s, parts⟩ | ⟨b, double, s, number, parts⟩ := unpack_of_isFinite finite
  · rw [parts]
    exact .inl ⟨zero, rfl⟩
  · refine .inr ⟨b, double, ?_⟩
    rw [parts, number, Binary.value]
    cases s with
    | positive => exact .inl ⟨rfl, rfl⟩
    | negative => exact .inr ⟨by simp [Sign.apply], rfl⟩

/-- Finite floats stand in the order of the numbers that they denote. -/
theorem place_lt_iff (hf : f.isFinite = true) (hg : g.isFinite = true) :
    place f < place g ↔ value f < value g := by
  obtain ⟨vf, pf⟩ | ⟨b, hb, ⟨vf, pf⟩ | ⟨vf, pf⟩⟩ := place_of_isFinite hf <;>
    obtain ⟨vg, pg⟩ | ⟨c, hc, ⟨vg, pg⟩ | ⟨vg, pg⟩⟩ := place_of_isFinite hg <;>
    rw [vf, vg, pf, pg] <;> simp only [Prod.Lex.toLex_lt_toLex]
  · simp
  · simp [hc.value_pos]
  · simp [hc.value_pos.le]
  · simp [hb.value_pos.le]
  · simp [hb.value_lt_iff hc]
  · have apart : -c.value < b.value := by linarith [hb.value_pos, hc.value_pos]
    simp [apart.le]
  · simp [hb.value_pos]
  · have apart : -b.value < c.value := by linarith [hb.value_pos, hc.value_pos]
    simp [apart]
  · simp [hc.value_lt_iff hb, eq_comm]

theorem lt_iff_value (hf : f.isFinite = true) (hg : g.isFinite = true) :
    f < g ↔ value f < value g := by
  rw [lt_iff_place (isNaN_of_isFinite hf) (isNaN_of_isFinite hg), place_lt_iff hf hg]

theorem place_eq_iff (hf : f.isFinite = true) (hg : g.isFinite = true) :
    place f = place g ↔ value f = value g := by
  have less := place_lt_iff hf hg
  have greater := place_lt_iff hg hf
  constructor
  · intro same
    rw [same] at less greater
    exact le_antisymm (not_lt.1 fun h => (lt_irrefl _ (greater.2 h)))
      (not_lt.1 fun h => (lt_irrefl _ (less.2 h)))
  · intro same
    rw [same] at less greater
    exact le_antisymm (not_lt.1 fun h => (lt_irrefl _ (greater.1 h)))
      (not_lt.1 fun h => (lt_irrefl _ (less.1 h)))

/-! ## Whole parts -/

theorem wholePart_eq (f : Float) : wholePart f = ⌊value f⌋ :=
  (Rat.floor_intCast_div_natCast ..).symm

theorem ratio_pos (f : Float) : 0 < (ratio f).2 :=
  Nat.two_pow_pos _

theorem isWhole_iff : isWhole f = true ↔ ∃ i : ℤ, value f = i := by
  have divisor : ((ratio f).2 : ℚ) ≠ 0 := Nat.cast_ne_zero.2 (ratio_pos f).ne'
  have divides : isWhole f = true ↔ ((ratio f).2 : ℤ) ∣ (ratio f).1 :=
    beq_iff_eq.trans Int.dvd_iff_emod_eq_zero.symm
  rw [divides, value]
  constructor
  · rintro ⟨i, product⟩
    refine ⟨i, ?_⟩
    rw [product, Int.cast_mul, Int.cast_natCast, mul_div_cancel_left₀ _ divisor]
  · rintro ⟨i, quotient⟩
    rw [div_eq_iff divisor] at quotient
    exact ⟨i, by rw [mul_comm]; exact_mod_cast quotient⟩

theorem nearestWhole_eq (f : Float) : nearestWhole f = ⌊value f + 1 / 2⌋ := by
  have divisor : ((ratio f).2 : ℚ) ≠ 0 := Nat.cast_ne_zero.2 (ratio_pos f).ne'
  have quotient : value f + 1 / 2 =
      ((2 * (ratio f).1 + (ratio f).2 : ℤ) : ℚ) / (2 * (ratio f).2 : ℕ) := by
    rw [value]
    push_cast
    field_simp
  rw [quotient, Rat.floor_intCast_div_natCast]
  rfl

/-! ## Dyadic numbers -/

/-- The parts of the pattern of a double are those of the double. -/
theorem Binary.Finite.ofBits_bits {b : Binary} (finite : b.Finite) : ofBits b.bits = b := by
  have ⟨_, small, low, high, normal⟩ := finite
  have big : pow2 52 = 2 ^ 52 := rfl
  by_cases full : 2 ^ 52 ≤ b.significand
  · have bits : b.bits = (b.exponent + 1075).toNat * 2 ^ 52 + (b.significand - 2 ^ 52) := by
      rw [Binary.bits, big]
      omega
    rw [bits, ofBits_parts (by omega) (by omega), if_neg (by omega), Nat.sub_add_cancel full]
    congr 1
    omega
  · have least := normal.resolve_right full
    have bits : b.bits = 0 * 2 ^ 52 + b.significand := by
      rw [Binary.bits, big]
      omega
    rw [bits, ofBits_parts (by decide) (by omega), if_pos rfl, ← least]

theorem value_ofBits {n : ℕ} (number : n ≤ infinityBits) :
    value (Float.ofBits (.ofNat n)) = (Binary.ofBits n).value := by
  rw [value_of_positive (signOf_ofBits number), magnitude_ofBits number]

theorem Binary.Finite.exists_value {b : Binary} (finite : b.Finite) :
    ∃ g : Float, g.isFinite = true ∧ Number.value g = b.value := by
  have bound := finite.bits_lt
  refine ⟨Float.ofBits (.ofNat b.bits), isFinite_iff.2 ?_, ?_⟩
  · rwa [magnitude_ofBits bound.le]
  · rw [value_ofBits bound.le, finite.ofBits_bits]

/-- Short multiples of powers of two are floats. -/
theorem exists_value {k : ℕ} {e : ℤ} (short : k < 2 ^ 53) (least : -1074 ≤ e) (most : e ≤ 971) :
    ∃ g : Float, g.isFinite = true ∧ value g = k * 2 ^ e := by
  rcases Nat.eq_zero_or_pos k with rfl | positive
  · refine ⟨Float.ofBits (.ofNat 0), by decide, ?_⟩
    rw [value_ofBits (Nat.zero_le _), Binary.value_ofBits_zero, Nat.cast_zero, zero_mul]
  · -- the significand is shifted up until it is full or the last bit is the lowest
    generalize shift : min (52 - k.log2) (e + 1074).toNat = s
    have first := Nat.log2_self_le positive.ne'
    have last := (Nat.log2_lt positive.ne').2 short
    have double : (⟨k * 2 ^ s, e - s⟩ : Binary).Finite := by
      refine ⟨by positivity, ?_, by dsimp only; omega, by dsimp only; omega, ?_⟩
      · calc k * 2 ^ s < 2 ^ (k.log2 + 1) * 2 ^ s := by
              exact Nat.mul_lt_mul_of_pos_right Nat.lt_log2_self (by positivity)
          _ = 2 ^ (k.log2 + 1 + s) := (Nat.pow_add ..).symm
          _ ≤ 2 ^ 53 := Nat.pow_le_pow_right (by decide) (by omega)
      · by_cases lowest : e - s = -1074
        · exact .inl lowest
        · right
          calc 2 ^ 52 = 2 ^ (k.log2 + s) := by rw [show k.log2 + s = 52 by omega]
            _ = 2 ^ k.log2 * 2 ^ s := Nat.pow_add ..
            _ ≤ k * 2 ^ s := Nat.mul_le_mul_right _ first
    obtain ⟨g, finite, same⟩ := double.exists_value
    refine ⟨g, finite, ?_⟩
    rw [same, Binary.value, Nat.cast_mul, Nat.cast_pow, Nat.cast_two, mul_assoc, ← zpow_natCast,
      ← zpow_add₀ two_ne_zero, add_sub_cancel]

end TableQuery.Number
