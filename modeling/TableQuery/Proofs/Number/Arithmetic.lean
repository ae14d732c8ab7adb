import TableQuery.Proofs.Number.Residual

/-!
# Arithmetic on floats

The sum, the difference, the product and the quotient of two finite floats are the exact ones,
rounded, and so are whole numbers as floats.
-/

namespace TableQuery.Number

open Float.Model UnpackedFloat

variable {f g : Float} {x : ℚ} {n d : ℕ} {e : ℤ} {s : Sign} {u : UnpackedFloat}

/-! ## Packed floats -/

/-- The float of a decoded one. -/
def packed (u : UnpackedFloat) : Float :=
  .ofModel (.pack u)

theorem packed_unpack (f : Float) : packed f.toModel.unpack = f :=
  Float.ofBits_toBits f

theorem rank_packed (bound : n ≤ infinityBits)
    (bits : (UnpackedFloat.pack .binary64 u).toNat = s.toBitVec.toNat * 2 ^ 63 + n) :
    rank (packed u) = s.apply n := by
  have top : infinityBits = 2047 * 2 ^ 52 := rfl
  have pattern : (packed u).toBits.toNat = s.toBitVec.toNat * 2 ^ 63 + n := bits
  have size : magnitude (packed u) = n := by
    rw [magnitude, pattern]
    omega
  have sign : signOf (packed u) = s := by
    have negative := @signOf_eq_negative_iff (packed u)
    rw [pattern] at negative
    cases s <;> cases h : signOf (packed u) <;> simp [h, Sign.toBitVec] at negative ⊢
    omega
  rw [rank, size, sign]

theorem rank_packed_zero (s : Sign) : rank (packed (.zero s)) = 0 := by
  have zero : rank (packed (.zero s)) = s.apply (0 : ℕ) := by
    refine rank_packed (Nat.zero_le _) ?_
    cases s <;> rfl
  rw [zero]
  cases s <;> rfl

theorem rank_rounded_of_sign (sign : s = if x < 0 then .negative else .positive) :
    rank (rounded x) = s.apply (nearestBits x.num.natAbs x.den) := by
  rw [rank_rounded, sign]
  split <;> rfl

/-- A nonzero number that is given by a quotient and its residual bits is rounded. -/
theorem rank_packed_round (sign : s = if x < 0 then .negative else .positive) (nonzero : x ≠ 0)
    (hd : 0 < d) (quotient : |x| = n / d * 2 ^ e)
    (fine : e ≤ lastBitExponent x.num.natAbs x.den) :
    rank (packed (roundWithAccuracy .binary64 s (n / d) e (accuracyOfFraction (n % d) d))) =
      rank (rounded x) := by
  have unit : (2 : ℚ) ^ e ≠ 0 := by positivity
  have scaled : (n : ℚ) / d = x.num.natAbs / x.den / 2 ^ e := by
    rw [← abs_eq_div, quotient, mul_div_cancel_right₀ _ unit]
  rw [rank_rounded_of_sign sign]
  refine rank_packed (nearestBits_le_infinity _ _) ?_
  exact toNat_pack_roundWithAccuracy s (by simpa using nonzero) x.pos hd scaled fine

/-- A nonzero number that is given exactly is rounded if no bit has to be added below. -/
theorem rank_packed_exact {m : ℕ} (sign : s = if x < 0 then .negative else .positive)
    (nonzero : x ≠ 0) (exact : |x| = m * 2 ^ e) (fine : 2 ^ 52 ≤ m ∨ e ≤ -1074) :
    rank (packed (roundWithAccuracy .binary64 s m e .exact)) = rank (rounded x) := by
  have round := @rank_packed_round x m 1 e s sign nonzero one_pos
  rw [Nat.div_one, Nat.mod_one, accuracyOfFraction, if_pos rfl, Nat.cast_one, div_one] at round
  obtain ⟨least, below, -⟩ :=
    @lastBitExponent_spec x.num.natAbs x.den (by simpa using nonzero) x.pos
  rw [← abs_eq_div, exact] at below
  refine round exact ?_
  rcases fine with full | low
  · have size : (2 : ℚ) ^ (e + (52 : ℕ)) ≤ m * 2 ^ e := by
      rw [zpow_add_nat]
      exact mul_le_mul_of_nonneg_right (by exact_mod_cast full) (by positivity)
    have powers := (zpow_lt_zpow_iff_right₀ one_lt_two).1 (size.trans_lt below)
    omega
  · omega

theorem rank_packed_round_of_nat {m : ℕ} (sign : s = if x < 0 then .negative else .positive)
    (nonzero : x ≠ 0) (exact : |x| = m * 2 ^ e) :
    rank (packed (UnpackedFloat.round .binary64 s m e)) = rank (rounded x) := by
  unfold UnpackedFloat.round decreaseExponent
  rw [targetExponent_eq]
  dsimp only
  generalize shift : (e - max (m.log2 + 1 + e - 53 : ℤ) (-1074)).toNat = k
  refine rank_packed_exact sign nonzero ?_ ?_
  · rw [exact, Nat.shiftLeft_eq, Nat.cast_mul, Nat.cast_pow, mul_assoc, Nat.cast_two,
      ← zpow_natCast, ← zpow_add₀ two_ne_zero, add_sub_cancel]
  · have positive : m ≠ 0 := by
      rintro rfl
      simp [nonzero] at exact
    by_cases low : e - k ≤ -1074
    · exact .inr low
    · left
      calc 2 ^ 52 ≤ 2 ^ (m.log2 + k) := Nat.pow_le_pow_right (by decide) (by omega)
        _ = 2 ^ m.log2 * 2 ^ k := Nat.pow_add ..
        _ ≤ m * 2 ^ k := Nat.mul_le_mul_right _ (Nat.log2_self_le positive)
        _ = m <<< k := (Nat.shiftLeft_eq ..).symm

theorem rank_rounded_zero : rank (rounded 0) = 0 := by
  rw [rank_rounded]
  simp [nearestBits_zero]

theorem natCast_toNat {i : ℤ} (h : 0 ≤ i) : (i.toNat : ℚ) = i := by
  exact_mod_cast Int.toNat_of_nonneg h

/-- A whole number of units is rounded. -/
theorem rank_packed_normalize (i e : ℤ) (zero : Sign) :
    rank (packed (UnpackedFloat.normalize .binary64 i e zero)) = rank (rounded (i * 2 ^ e)) := by
  have unit : (0 : ℚ) < 2 ^ e := by positivity
  unfold UnpackedFloat.normalize
  rcases lt_trichotomy i 0 with h | rfl | h
  · have below : (i : ℚ) * 2 ^ e < 0 := mul_neg_of_neg_of_pos (by exact_mod_cast h) unit
    rw [Int.compare_eq_lt.2 h]
    refine rank_packed_round_of_nat (by rw [if_pos below]) below.ne ?_
    rw [abs_of_neg below, ← neg_mul, natCast_toNat (by omega), Int.cast_neg]
  · rw [Int.cast_zero, zero_mul, rank_rounded_zero]
    exact rank_packed_zero zero
  · have above : 0 < (i : ℚ) * 2 ^ e := mul_pos (by exact_mod_cast h) unit
    rw [Int.compare_eq_gt.2 h]
    refine rank_packed_round_of_nat (by rw [if_neg above.asymm]) above.ne' ?_
    rw [abs_of_pos above, natCast_toNat h.le]

/-! ## Operations -/

/-- A finite float is rounded to itself. -/
theorem rank_rounded_value (finite : f.isFinite = true) : rank (rounded (value f)) = rank f :=
  le_antisymm (rank_rounded_le finite le_rfl) (le_rank_rounded finite le_rfl)

theorem decreaseExponent_eq {m : ℕ} (s : Sign) {e e' : ℤ} (h : e' ≤ e) :
    (s.apply (decreaseExponent m e e').1 : ℚ) * 2 ^ e' = s.apply m * 2 ^ e := by
  have shift : ((e - e').toNat : ℤ) = e - e' := Int.toNat_of_nonneg (by omega)
  have power : (m * 2 ^ (e - e').toNat : ℚ) * 2 ^ e' = m * 2 ^ e := by
    rw [← zpow_natCast, shift, mul_assoc, ← zpow_add₀ two_ne_zero, sub_add_cancel]
  rw [decreaseExponent, Nat.shiftLeft_eq]
  cases s with
  | positive => simpa [Sign.apply] using power
  | negative => simpa [Sign.apply] using power

theorem rank_add (hf : f.isFinite = true) (hg : g.isFinite = true) :
    rank (f + g) = rank (rounded (value f + value g)) := by
  show rank (packed (UnpackedFloat.add .binary64 f.toModel.unpack g.toModel.unpack)) = _
  obtain ⟨zero, s, left⟩ | ⟨b, hb, s, number, left⟩ := unpack_of_isFinite hf <;>
    obtain ⟨zero', t, right⟩ | ⟨c, hc, t, number', right⟩ := unpack_of_isFinite hg
  · rw [zero, zero', add_zero, rank_rounded_zero, left, right]
    cases s <;> cases t <;> exact rank_packed_zero _
  · rw [zero, zero_add, rank_rounded_value hg, left, ← congrArg rank (packed_unpack g), right]
    rfl
  · rw [zero', add_zero, rank_rounded_value hf, right, ← congrArg rank (packed_unpack f), left]
    rfl
  · -- in the lower of the two units both are whole numbers, and their sum is exact
    have exact := rank_packed_normalize
      (s.apply (decreaseExponent b.significand b.exponent (min b.exponent c.exponent)).1
        + t.apply (decreaseExponent c.significand c.exponent (min b.exponent c.exponent)).1)
      (min b.exponent c.exponent) .positive
    rw [Int.cast_add, add_mul, decreaseExponent_eq s (min_le_left ..),
      decreaseExponent_eq t (min_le_right ..)] at exact
    rw [left, right, number, number']
    exact exact

theorem unpack_neg (number : f.isNaN = false) :
    (-f).toModel.unpack = f.toModel.unpack.neg := by
  obtain ⟨sign, same⟩ := parts_neg number
  rw [unpack_eq_decode, unpack_eq_decode, sign, same, decode, decode]
  split_ifs <;> rfl

theorem sub_eq_add_neg_unpacked (u v : UnpackedFloat) :
    UnpackedFloat.sub .binary64 u v = UnpackedFloat.add .binary64 u v.neg := by
  rcases u with (_ | _) | _ | (_ | _) | ⟨s, m, e, _⟩ <;>
    rcases v with (_ | _) | _ | (_ | _) | ⟨t, n, e', _⟩ <;> try rfl
  have opposite (i : ℤ) : (-t).apply i = -t.apply i := by
    cases t
    · exact (Int.neg_neg _).symm
    · rfl
  simp only [UnpackedFloat.neg, UnpackedFloat.sub, UnpackedFloat.add, opposite, Int.sub_eq_add_neg]

theorem rank_sub (hf : f.isFinite = true) (hg : g.isFinite = true) :
    rank (f - g) = rank (rounded (value f - value g)) := by
  have sum := rank_add hf (isFinite_neg hg)
  rw [value_neg hg, ← sub_eq_add_neg] at sum
  rw [← sum]
  show rank (packed (UnpackedFloat.sub .binary64 f.toModel.unpack g.toModel.unpack)) =
    rank (packed (UnpackedFloat.add .binary64 f.toModel.unpack (-g).toModel.unpack))
  rw [unpack_neg (isNaN_of_isFinite hg), sub_eq_add_neg_unpacked]

theorem apply_eq (s : Sign) (i : ℤ) : (s.apply i : ℚ) = s.apply 1 * i := by
  cases s <;> simp [Sign.apply]

/-- The sign and the size of a number that is written with both. -/
theorem sign_and_size {a : ℚ} (positive : 0 < a) (h : x = s.apply 1 * a) :
    (s = if x < 0 then .negative else .positive) ∧ x ≠ 0 ∧ |x| = a := by
  cases s with
  | positive =>
    rw [h, Sign.apply, Int.cast_one, one_mul, if_neg positive.asymm]
    exact ⟨rfl, positive.ne', abs_of_pos positive⟩
  | negative =>
    have below : -a < 0 := by linarith
    rw [h, Sign.apply, Int.cast_neg, Int.cast_one, neg_one_mul, if_pos below, abs_neg]
    exact ⟨rfl, below.ne, abs_of_pos positive⟩

theorem rank_mul (hf : f.isFinite = true) (hg : g.isFinite = true) :
    rank (f * g) = rank (rounded (value f * value g)) := by
  show rank (packed (UnpackedFloat.mul .binary64 f.toModel.unpack g.toModel.unpack)) = _
  obtain ⟨zero, s, left⟩ | ⟨b, hb, s, number, left⟩ := unpack_of_isFinite hf <;>
    obtain ⟨zero', t, right⟩ | ⟨c, hc, t, number', right⟩ := unpack_of_isFinite hg
  · rw [zero, zero_mul, rank_rounded_zero, left, right]
    exact rank_packed_zero _
  · rw [zero, zero_mul, rank_rounded_zero, left, right]
    exact rank_packed_zero _
  · rw [zero', mul_zero, rank_rounded_zero, left, right]
    exact rank_packed_zero _
  · have signs : (s * t).apply 1 = s.apply 1 * t.apply 1 := by cases s <;> cases t <;> rfl
    have product : value f * value g = (s * t).apply 1 * (b.value * c.value) := by
      rw [number, number', apply_eq, apply_eq t, signs, Binary.value, Binary.value]
      push_cast
      ring
    obtain ⟨sign, nonzero, size⟩ := sign_and_size (mul_pos hb.value_pos hc.value_pos) product
    rw [left, right]
    refine rank_packed_exact sign nonzero ?_ ?_
    · rw [size, Binary.value, Binary.value, zpow_add₀ two_ne_zero]
      push_cast
      ring
    -- the product is short only if both significands are, and then its unit is the square of one
    · rcases hb.normal with low | full
      · rcases hc.normal with low' | full
        · exact .inr (by omega)
        · exact .inl (full.trans (Nat.le_mul_of_pos_left _ hb.positive))
      · exact .inl (full.trans (Nat.le_mul_of_pos_right _ hc.positive))

/-- The quotient of two significands has enough bits to be rounded. -/
theorem divCore_fine {b c : Binary} (hb : b.Finite) (hc : c.Finite) (size : |x| = b.value / c.value)
    (h : e ≤ max (totalExponent b.significand b.exponent
      - totalExponent c.significand c.exponent - 53) (-1074)) :
    e ≤ lastBitExponent x.num.natAbs x.den := by
  have positive : 0 < |x| := by
    rw [size]
    exact div_pos hb.value_pos hc.value_pos
  obtain ⟨least, below, -⟩ :=
    @lastBitExponent_spec x.num.natAbs x.den (by simpa using abs_pos.1 positive) x.pos
  rw [← abs_eq_div, size] at below
  have low : (2 : ℚ) ^ (b.exponent + b.significand.log2) ≤ b.value := by
    rw [zpow_add_nat, Binary.value]
    exact mul_le_mul_of_nonneg_right (by exact_mod_cast Nat.log2_self_le hb.positive.ne')
      (by positivity)
  have high : c.value ≤ (2 : ℚ) ^ (c.exponent + (c.significand.log2 + 1 : ℕ)) := by
    rw [zpow_add_nat, Binary.value]
    exact mul_le_mul_of_nonneg_right (by exact_mod_cast Nat.lt_log2_self.le) (by positivity)
  have powers : (2 : ℚ) ^ (b.exponent + b.significand.log2
        - (c.exponent + (c.significand.log2 + 1 : ℕ)))
      < 2 ^ (lastBitExponent x.num.natAbs x.den + 53) := by
    rw [zpow_sub₀ two_ne_zero]
    exact (div_le_div₀ hb.value_pos.le low hc.value_pos high).trans_lt below
  have exponents := (zpow_lt_zpow_iff_right₀ one_lt_two).1 powers
  unfold totalExponent at h
  omega

theorem divCore_eq {m n : ℕ} {e e' e'' : ℤ} (h : e'' ≤ e - e') :
    ((m <<< (e - e' - e'').toNat : ℕ) : ℚ) / n * 2 ^ e'' = m * 2 ^ e / (n * 2 ^ e') := by
  have shift : ((e - e' - e'').toNat : ℤ) = e - e' - e'' := Int.toNat_of_nonneg (by omega)
  have power : (2 : ℚ) ^ (e - e' - e'').toNat * 2 ^ e'' = 2 ^ e / 2 ^ e' := by
    rw [← zpow_natCast, shift, ← zpow_add₀ two_ne_zero, sub_add_cancel, zpow_sub₀ two_ne_zero]
  rw [Nat.shiftLeft_eq, Nat.cast_mul, Nat.cast_pow, Nat.cast_two, mul_div_mul_comm, ← power]
  ring

theorem rank_div (hf : f.isFinite = true) (hg : g.isFinite = true) (nonzero : value g ≠ 0) :
    rank (f / g) = rank (rounded (value f / value g)) := by
  show rank (packed (UnpackedFloat.div .binary64 f.toModel.unpack g.toModel.unpack)) = _
  obtain ⟨zero, -⟩ | ⟨c, hc, t, number', right⟩ := unpack_of_isFinite hg
  · exact absurd zero nonzero
  obtain ⟨zero, s, left⟩ | ⟨b, hb, s, number, left⟩ := unpack_of_isFinite hf
  · rw [zero, zero_div, rank_rounded_zero, left, right]
    exact rank_packed_zero _
  · have signs : (s / t).apply 1 = s.apply 1 * t.apply 1 := by cases s <;> cases t <;> rfl
    have quotient : value f / value g = (s / t).apply 1 * (b.value / c.value) := by
      rw [number, number', apply_eq, apply_eq t, signs, Binary.value, Binary.value]
      cases t <;> simp only [Sign.apply] <;> push_cast <;> ring
    obtain ⟨sign, nonzero, size⟩ := sign_and_size (div_pos hb.value_pos hc.value_pos) quotient
    rw [left, right]
    refine rank_packed_round sign nonzero hc.positive ?_ (divCore_fine hb hc size (min_le_right ..))
    rw [size, divCore_eq (min_le_left ..)]
    rfl

/-! ## Whole numbers -/

/-- Numbers between finite floats are rounded to finite floats. -/
theorem isFinite_of_bounds (hg : g.isFinite = true) (low : -value g ≤ x) (high : x ≤ value g)
    (same : rank f = rank (rounded x)) : f.isFinite = true := by
  have upper := rank_rounded_le hg high
  have lower := le_rank_rounded (isFinite_neg hg) ((value_neg hg).le.trans low)
  rw [rank_neg (isNaN_of_isFinite hg)] at lower
  rw [isFinite_iff_rank, abs_lt] at hg ⊢
  omega

theorem value_eq_of_rank (hf : f.isFinite = true) (hg : g.isFinite = true)
    (same : rank f = rank g) : value f = value g :=
  (place_eq_iff hf hg).1 (place_eq_of_rank same)

theorem rank_ofUInt64 (n : UInt64) : rank n.toFloat = rank (rounded n.toNat) := by
  have whole := rank_packed_normalize n.toNat 0 .positive
  rw [zpow_zero, mul_one, Int.cast_natCast] at whole
  exact whole

theorem value_one : value (Float.ofBits 0x3FF0000000000000) = 1 := by
  have parts : ratio (Float.ofBits 0x3FF0000000000000) = (2 ^ 52, 2 ^ 52) := by decide
  rw [value, parts]
  norm_num

theorem value_two_pow : value (Float.ofBits 0x4340000000000000) = 2 ^ 53 := by
  have parts : ratio (Float.ofBits 0x4340000000000000) = (2 ^ 53, 1) := by decide
  rw [value, parts]
  norm_num

theorem isFinite_of_le_two_pow (low : -2 ^ 53 ≤ x) (high : x ≤ 2 ^ 53)
    (same : rank f = rank (rounded x)) : f.isFinite = true := by
  rw [← value_two_pow] at low high
  exact isFinite_of_bounds (by decide) low high same

/-- A natural number is rounded as a float. -/
theorem rank_ofNat (n : ℕ) : rank (Float.ofNat n) = rank (rounded n) := by
  show rank (Float.ofScientific n false 0) = _
  unfold Float.ofScientific
  by_cases small : n < 2 ^ 53 ∧ 0 ≤ 22
  · have bound : (n : ℚ) ≤ 2 ^ 53 := by exact_mod_cast small.1.le
    have whole := rank_ofUInt64 n.toUInt64
    rw [UInt64.toNat_ofNat_of_lt' (small.1.trans (by decide))] at whole
    have low : (0 : ℚ) ≤ n := n.cast_nonneg
    have finite := isFinite_of_le_two_pow (by linarith) bound whole
    rw [dif_pos small]
    show rank (n.toUInt64.toFloat * Float.ofBits 0x3FF0000000000000) = _
    rw [rank_mul finite (by decide), value_one, mul_one, rank_rounded_value finite, whole]
  · rw [dif_neg small]
    show rank (packed (UnpackedFloat.ofScientific .binary64 n 0)) = _
    have bound : ¬ (0 : ℤ) < -((2 ^ Format.binary64.exponentBits : ℤ) + n.log2) := by
      show ¬ (0 : ℤ) < -(2 ^ 11 + n.log2)
      omega
    unfold UnpackedFloat.ofScientific
    rw [dif_neg (by omega), if_neg (by decide), if_neg bound, if_pos le_rfl]
    show rank (packed (roundWithAccuracy .binary64 .positive (n <<< 53 * 1) (-53) .exact)) = _
    have positive : (0 : ℚ) < n := by
      exact_mod_cast (by omega : 0 < n)
    refine rank_packed_exact (by rw [if_neg positive.asymm]) positive.ne' ?_ (.inl ?_)
    · rw [abs_of_pos positive, Nat.shiftLeft_eq, mul_one, Nat.cast_mul, mul_assoc]
      norm_num
    · rw [Nat.shiftLeft_eq]
      omega

/-- An integer is rounded as a float. -/
theorem rank_ofInt (i : ℤ) : rank (Float.ofInt i) = rank (rounded i) := by
  cases i with
  | ofNat n => exact rank_ofNat n
  | negSucc n =>
    have whole := rank_ofNat (n + 1)
    have opposite : ((Int.negSucc n : ℤ) : ℚ) = -((n + 1 : ℕ) : ℚ) := Int.cast_negSucc n
    show rank (-Float.ofNat (n + 1)) = _
    rw [rank_neg (isNaN_of_rank whole (isNaN_rounded _)), whole, opposite, rank_rounded_neg]

/-! ## Bounds on rounded numbers -/

theorem rank_le_iff_value (hf : f.isFinite = true) (hg : g.isFinite = true) :
    rank f ≤ rank g ↔ value f ≤ value g := by
  rw [← not_lt, ← not_lt, ← lt_iff_value hg hf, lt_iff_rank (isNaN_of_isFinite hg)
    (isNaN_of_isFinite hf)]

/-- A rounded number is not above a float that the number is not above. -/
theorem value_le_of_rounded (hf : f.isFinite = true) (hg : g.isFinite = true)
    (same : rank f = rank (rounded x)) (h : x ≤ value g) : value f ≤ value g := by
  rw [← rank_le_iff_value hf hg, same]
  exact rank_rounded_le hg h

theorem le_value_of_rounded (hf : f.isFinite = true) (hg : g.isFinite = true)
    (same : rank f = rank (rounded x)) (h : value g ≤ x) : value g ≤ value f := by
  rw [← rank_le_iff_value hg hf, same]
  exact le_rank_rounded hg h

/-- A number that is a float is kept. -/
theorem value_of_rounded (hg : g.isFinite = true) (same : rank f = rank (rounded (value g))) :
    f.isFinite = true ∧ value f = value g := by
  rw [rank_rounded_value hg] at same
  have finite : f.isFinite = true := by rwa [isFinite_iff_rank, same, ← isFinite_iff_rank]
  exact ⟨finite, value_eq_of_rank finite hg same⟩

/-- A short integer is rounded to a float that denotes it. -/
theorem value_of_rounded_int {i : ℤ} (small : i.natAbs < 2 ^ 53)
    (same : rank f = rank (rounded i)) : f.isFinite = true ∧ value f = i := by
  obtain ⟨g, finite, exact⟩ := @exists_value i.natAbs 0 small (by decide) (by decide)
  rw [zpow_zero, mul_one, Nat.cast_natAbs, Int.cast_abs] at exact
  rcases le_or_gt 0 i with h | h
  · rw [abs_of_nonneg (by exact_mod_cast h)] at exact
    rw [← exact] at same ⊢
    exact value_of_rounded finite same
  · rw [abs_of_neg (by exact_mod_cast h)] at exact
    have mirrored : value (-g) = i := by
      rw [value_neg finite, exact]
      ring
    rw [← mirrored] at same ⊢
    exact value_of_rounded (isFinite_neg finite) same

/-- An integer that is rounded to a short number is that number. -/
theorem value_of_short {i : ℤ} (finite : f.isFinite = true) (same : rank f = rank (rounded i))
    (short : ⌊value f⌋.natAbs < 2 ^ 53) : value f = i := by
  refine (value_of_rounded_int ?_ same).2
  by_contra long
  have finite' : (Float.ofBits 0x4340000000000000).isFinite = true := by decide
  rcases (by omega : 2 ^ 53 ≤ i ∨ i ≤ -2 ^ 53) with high | low
  · have bound : (2 ^ 53 : ℚ) ≤ i := by exact_mod_cast high
    have above := le_value_of_rounded finite finite' same (value_two_pow.le.trans bound)
    have floor : 2 ^ 53 ≤ ⌊value f⌋ := by
      rw [Int.le_floor]
      exact_mod_cast value_two_pow.ge.trans above
    omega
  · have bound : (i : ℚ) ≤ -2 ^ 53 := by exact_mod_cast low
    have mirrored := value_neg finite'
    rw [value_two_pow] at mirrored
    have below := value_le_of_rounded finite (isFinite_neg finite') same (bound.trans mirrored.ge)
    have floor : (⌊value f⌋ : ℚ) ≤ -2 ^ 53 := (Int.floor_le _).trans (below.trans mirrored.le)
    have least : ⌊value f⌋ ≤ -2 ^ 53 := by exact_mod_cast floor
    omega

theorem value_ofInt {i : ℤ} (small : i.natAbs < 2 ^ 53) :
    (Float.ofInt i).isFinite = true ∧ value (Float.ofInt i) = i :=
  value_of_rounded_int small (rank_ofInt i)

theorem value_ofNat (small : n < 2 ^ 53) :
    (Float.ofNat n).isFinite = true ∧ value (Float.ofNat n) = n := by
  have whole := @value_ofInt n small
  rwa [Int.cast_natCast] at whole

end TableQuery.Number
