import TableQuery.Proofs.Number.Values

/-!
# The nearest double

Rounding a quotient depends on its value alone, and it is monotone: a quotient that is not above a
double is not rounded to one above it. So a double is rounded to itself.
-/

namespace TableQuery.Number

open Float.Model UnpackedFloat

variable {n d k num den num' den' : ℕ} {e : ℤ} {x y : ℚ} {b : Binary} {f g : Float}

/-! ## Whole numbers -/

theorem divNearestEven_bounds (positive : 0 < d) :
    2 * (divNearestEven n d * d) ≤ 2 * n + d ∧ 2 * n ≤ 2 * (divNearestEven n d * d) + d ∧
      (divNearestEven n d % 2 = 0 ∨
        2 * (divNearestEven n d * d) < 2 * n + d ∧ 2 * n < 2 * (divNearestEven n d * d) + d) := by
  have division : n / d * d + n % d = n := Nat.div_add_mod' n d
  have rest : n % d < d := Nat.mod_lt n positive
  unfold divNearestEven
  generalize n / d = q at division ⊢
  generalize n % d = r at division rest ⊢
  have next : (q + 1) * d = q * d + d := Nat.add_one_mul q d
  simp only [beq_iff_eq]
  split_ifs <;> omega

/-- What a quotient is rounded to is at most a half away, and even if it is a half away. -/
theorem divNearestEven_near (positive : 0 < d) :
    (divNearestEven n d : ℚ) - 1 / 2 ≤ n / d ∧ (n : ℚ) / d ≤ divNearestEven n d + 1 / 2 ∧
      (divNearestEven n d % 2 = 0 ∨
        (divNearestEven n d : ℚ) - 1 / 2 < n / d ∧ (n : ℚ) / d < divNearestEven n d + 1 / 2) := by
  have divisor : (0 : ℚ) < d := Nat.cast_pos.2 positive
  obtain ⟨low, high, ties⟩ := @divNearestEven_bounds n d positive
  rw [le_div_iff₀ divisor, div_le_iff₀ divisor, lt_div_iff₀ divisor, div_lt_iff₀ divisor]
  generalize divNearestEven n d = k at *
  qify at low high
  refine ⟨by linarith, by linarith, ties.imp_right fun ⟨below, above⟩ => ?_⟩
  qify at below above
  exact ⟨by linarith, by linarith⟩

/-- Rounding to a whole number depends on the quotient alone. -/
theorem divNearestEven_congr {n' d' : ℕ} (hd : 0 < d) (hd' : 0 < d')
    (same : (n : ℚ) / d = n' / d') : divNearestEven n d = divNearestEven n' d' := by
  obtain ⟨low, high, ties⟩ := @divNearestEven_near n' d' hd'
  exact divNearestEven_of_near hd same low high ties

theorem divNearestEven_le (hd : 0 < d) (h : (n : ℚ) / d ≤ k) : divNearestEven n d ≤ k := by
  have low := (@divNearestEven_near n d hd).1
  have near : (divNearestEven n d : ℚ) < k + 1 := by linarith
  exact Nat.lt_succ_iff.1 (by exact_mod_cast near)

theorem le_divNearestEven (hd : 0 < d) (h : k ≤ (n : ℚ) / d) : k ≤ divNearestEven n d := by
  have high := (@divNearestEven_near n d hd).2.1
  have near : (k : ℚ) < divNearestEven n d + 1 := by linarith
  exact Nat.lt_succ_iff.1 (by exact_mod_cast near)

/-- Ties go to even numbers, of which the ones on both sides of a tie are never two. -/
theorem divNearestEven_mono {n' d' : ℕ} (hd : 0 < d) (hd' : 0 < d')
    (h : (n : ℚ) / d ≤ n' / d') : divNearestEven n d ≤ divNearestEven n' d' := by
  obtain ⟨low, -, even⟩ := @divNearestEven_near n d hd
  obtain ⟨-, high, even'⟩ := @divNearestEven_near n' d' hd'
  by_contra! less
  have step : (divNearestEven n' d' : ℚ) + 1 ≤ divNearestEven n d := by exact_mod_cast less
  -- both quotients are halfway between two neighbours
  have halfway : divNearestEven n d = divNearestEven n' d' + 1 := by
    have near : (divNearestEven n d : ℚ) ≤ divNearestEven n' d' + 1 := by linarith
    exact le_antisymm (by exact_mod_cast near) less
  have tie : divNearestEven n d % 2 = 0 := even.resolve_right fun strict => by linarith [strict.1]
  have tie' : divNearestEven n' d' % 2 = 0 :=
    even'.resolve_right fun strict => by linarith [strict.2]
  omega

/-! ## Bit patterns of quotients -/

/-- The exponent of the last bit is determined by the powers of two around the quotient. -/
theorem lastBitExponent_eq (hnum : 0 < num) (hden : 0 < den) (least : -1074 ≤ e)
    (below : (num : ℚ) / den < 2 ^ (e + 53))
    (normal : e = -1074 ∨ 2 ^ (e + 52) ≤ (num : ℚ) / den) : lastBitExponent num den = e := by
  obtain ⟨least', below', normal'⟩ := lastBitExponent_spec hnum hden
  generalize lastBitExponent num den = e' at *
  have apart {i j : ℤ} (low : (2 : ℚ) ^ (i + 52) ≤ num / den)
      (high : (num : ℚ) / den < 2 ^ (j + 53)) : i ≤ j := by
    have powers := (zpow_lt_zpow_iff_right₀ one_lt_two).1 (low.trans_lt high)
    omega
  rcases normal with rfl | normal <;> rcases normal' with rfl | normal'
  · rfl
  · have := apart normal' below
    omega
  · have := apart normal below'
    omega
  · exact le_antisymm (apart normal' below) (apart normal below')

/-- The pattern of a quotient, given the exponent of its last bit. -/
theorem nearestBits_eq (hnum : 0 < num) (hden : 0 < den) (least : -1074 ≤ e)
    (below : (num : ℚ) / den < 2 ^ (e + 53)) (normal : e = -1074 ∨ 2 ^ (e + 52) ≤ (num : ℚ) / den)
    (hd : 0 < d) (scaled : (n : ℚ) / d = num / den / 2 ^ e) :
    nearestBits num den = min infinityBits ((e + 1074).toNat * 2 ^ 52 + divNearestEven n d) := by
  have big : pow2 52 = 2 ^ 52 := rfl
  have divisor : 0 < (scaleDown num den e).2 := scaleDown_pos hden e
  have rounded := divNearestEven_congr divisor hd ((scaleDown_eq num den e).trans scaled.symm)
  unfold nearestBits
  rw [if_neg (by simp [hnum.ne', hden.ne'])]
  dsimp only
  rw [lastBitExponent_eq hnum hden least below normal, rounded, big]

/-! ## Monotonicity -/

theorem zpow_add_nat (e : ℤ) (k : ℕ) : (2 : ℚ) ^ (e + k) = (2 ^ k : ℕ) * 2 ^ e := by
  rw [zpow_add₀ two_ne_zero, zpow_natCast, mul_comm]
  norm_cast

theorem Binary.bits_eq (b : Binary) :
    b.bits = (b.exponent + 1074).toNat * 2 ^ 52 + b.significand :=
  rfl

/-- The significand of a double in units of a smaller last bit. -/
theorem Binary.value_div (b : Binary) (h : e ≤ b.exponent) :
    b.value / 2 ^ e = (b.significand * 2 ^ (b.exponent - e).toNat : ℕ) := by
  have shift : ((b.exponent - e).toNat : ℤ) = b.exponent - e := Int.toNat_of_nonneg (by omega)
  rw [value, mul_div_assoc, ← zpow_sub₀ two_ne_zero, ← shift, zpow_natCast]
  push_cast
  rfl

/-- A quotient that is not above a double is not rounded to one above it. -/
theorem nearestBits_le (finite : b.Finite) (hden : 0 < den) (h : (num : ℚ) / den ≤ b.value) :
    nearestBits num den ≤ b.bits := by
  rcases Nat.eq_zero_or_pos num with rfl | hnum
  · simp [nearestBits]
  obtain ⟨least, below, normal⟩ := lastBitExponent_spec hnum hden
  have divisor : 0 < (scaleDown num den (lastBitExponent num den)).2 := scaleDown_pos hden _
  have scaled := scaleDown_eq num den (lastBitExponent num den)
  rw [nearestBits_eq hnum hden least below normal divisor scaled]
  generalize lastBitExponent num den = e at *
  have unit : (0 : ℚ) < 2 ^ e := by positivity
  have first := finite.low
  have order : e ≤ b.exponent := by
    rcases normal with rfl | normal
    · exact first
    · have powers := (zpow_lt_zpow_iff_right₀ one_lt_two).1
        ((normal.trans h).trans_lt finite.value_lt)
      omega
  have whole := b.value_div order
  refine (Nat.min_le_right _ _).trans ?_
  rw [b.bits_eq]
  rcases order.eq_or_lt with rfl | order
  · have rounded := divNearestEven_le divisor
      (scaled.le.trans ((div_le_div_of_nonneg_right h unit.le).trans whole.le))
    simp only [sub_self, Int.toNat_zero, pow_zero, mul_one] at rounded
    omega
  · -- the last bit of the quotient is lower, and its significand is at most a power of two
    have full := finite.normal.resolve_left (by omega)
    have rounded : divNearestEven _ _ ≤ 2 ^ 53 := divNearestEven_le divisor (by
      rw [scaled, div_le_iff₀ unit, ← zpow_add_nat]
      exact below.le)
    omega

/-- A quotient that is not below a double is not rounded to one below it. -/
theorem le_nearestBits (finite : b.Finite) (hden : 0 < den) (h : b.value ≤ (num : ℚ) / den) :
    b.bits ≤ nearestBits num den := by
  have hnum : 0 < num := by
    have positive := finite.value_pos.trans_le h
    rcases Nat.eq_zero_or_pos num with rfl | hnum
    · simp at positive
    · exact hnum
  obtain ⟨least, below, normal⟩ := lastBitExponent_spec hnum hden
  have divisor : 0 < (scaleDown num den (lastBitExponent num den)).2 := scaleDown_pos hden _
  have scaled := scaleDown_eq num den (lastBitExponent num den)
  rw [nearestBits_eq hnum hden least below normal divisor scaled]
  refine le_min finite.bits_lt.le ?_
  generalize lastBitExponent num den = e at *
  have unit : (0 : ℚ) < 2 ^ e := by positivity
  have first := finite.low
  have small := finite.small
  rw [b.bits_eq]
  rcases lt_trichotomy e b.exponent with order | rfl | order
  · -- a higher last bit would put the double above the quotient
    have powers := (zpow_lt_zpow_iff_right₀ one_lt_two).1
      (((finite.le_value (by omega)).trans h).trans_lt below)
    omega
  · have whole := b.value_div le_rfl
    have rounded := le_divNearestEven divisor
      (whole.ge.trans ((div_le_div_of_nonneg_right h unit.le).trans scaled.ge))
    simp only [sub_self, Int.toNat_zero, pow_zero, mul_one] at rounded
    omega
  · have rounded : 2 ^ 52 ≤ divNearestEven _ _ := le_divNearestEven divisor (by
      rw [scaled, le_div_iff₀ unit, ← zpow_add_nat]
      exact normal.resolve_left (by omega))
    omega

/-- A greater quotient is not rounded to a smaller double. -/
theorem nearestBits_mono (hden : 0 < den) (hden' : 0 < den') (h : (num : ℚ) / den ≤ num' / den') :
    nearestBits num den ≤ nearestBits num' den' := by
  rcases Nat.eq_zero_or_pos num with rfl | hnum
  · simp [nearestBits]
  have hnum' : 0 < num' := by
    have positive : (0 : ℚ) < num' / den' :=
      (div_pos (Nat.cast_pos.2 hnum) (Nat.cast_pos.2 hden)).trans_le h
    rcases Nat.eq_zero_or_pos num' with rfl | positive'
    · simp at positive
    · exact positive'
  obtain ⟨least, below, normal⟩ := lastBitExponent_spec hnum hden
  obtain ⟨least', below', normal'⟩ := lastBitExponent_spec hnum' hden'
  have scaled := scaleDown_eq num den (lastBitExponent num den)
  have scaled' := scaleDown_eq num' den' (lastBitExponent num' den')
  have divisor : 0 < (scaleDown num den (lastBitExponent num den)).2 := scaleDown_pos hden _
  have divisor' : 0 < (scaleDown num' den' (lastBitExponent num' den')).2 := scaleDown_pos hden' _
  rw [nearestBits_eq hnum hden least below normal divisor scaled,
    nearestBits_eq hnum' hden' least' below' normal' divisor' scaled']
  refine min_le_min_left _ ?_
  generalize scaleDown num den (lastBitExponent num den) = quotient at *
  generalize scaleDown num' den' (lastBitExponent num' den') = quotient' at *
  generalize lastBitExponent num den = e at *
  generalize lastBitExponent num' den' = e' at *
  have unit : (0 : ℚ) < 2 ^ e := zpow_pos two_pos _
  rcases lt_trichotomy e e' with less | rfl | more
  · -- the smaller quotient is rounded to the next power of two at most
    have top : divNearestEven quotient.1 quotient.2 ≤ 2 ^ 53 := by
      refine divNearestEven_le divisor ?_
      rw [scaled, div_le_iff₀ unit]
      refine below.le.trans_eq ?_
      exact zpow_add_nat e 53
    have bottom : 2 ^ 52 ≤ divNearestEven quotient'.1 quotient'.2 := by
      refine le_divNearestEven divisor' ?_
      rw [scaled', le_div_iff₀ (zpow_pos two_pos _)]
      refine (zpow_add_nat e' 52).symm.trans_le ?_
      exact normal'.resolve_left (by omega)
    have places : (e + 1074).toNat + 1 ≤ (e' + 1074).toNat := by omega
    omega
  · have same := divNearestEven_mono divisor divisor'
      (by rw [scaled, scaled']; exact div_le_div_of_nonneg_right h unit.le)
    omega
  · exfalso
    have first := normal.resolve_left (by omega)
    have powers : (2 : ℚ) ^ (e' + 53) ≤ 2 ^ (e + 52) := zpow_le_zpow_right₀ one_le_two (by omega)
    linarith

/-! ## Rounded numbers -/

/-- The double nearest to a rational number. -/
def rounded (x : ℚ) : Float :=
  if x < 0 then -nearest x.num.natAbs x.den else nearest x.num.natAbs x.den

theorem nearestBits_le_infinity (num den : ℕ) : nearestBits num den ≤ infinityBits := by
  unfold nearestBits
  split
  · exact Nat.zero_le _
  · exact Nat.min_le_left ..

theorem abs_eq_div (x : ℚ) : |x| = (x.num.natAbs : ℚ) / x.den := by
  rw [Nat.cast_natAbs, Int.cast_abs, ← Nat.abs_cast x.den, ← abs_div, Rat.num_div_den]

theorem parts_rounded (x : ℚ) :
    signOf (rounded x) = (if x < 0 then .negative else .positive) ∧
      magnitude (rounded x) = nearestBits x.num.natAbs x.den := by
  have bound := nearestBits_le_infinity x.num.natAbs x.den
  have sign : signOf (nearest x.num.natAbs x.den) = .positive := signOf_ofBits bound
  have same : magnitude (nearest x.num.natAbs x.den) = nearestBits x.num.natAbs x.den :=
    magnitude_ofBits bound
  rw [rounded]
  split
  · obtain ⟨flipped, kept⟩ := parts_neg (isNaN_nearest x.num.natAbs x.den)
    rw [flipped, kept, sign]
    exact ⟨rfl, same⟩
  · exact ⟨sign, same⟩

theorem isNaN_rounded (x : ℚ) : (rounded x).isNaN = false := by
  rw [← Bool.not_eq_true, isNaN_iff, (parts_rounded x).2, not_lt]
  exact nearestBits_le_infinity _ _

/-! ## Ranks -/

/-- The pattern of a float as a signed number. -/
def rank (f : Float) : ℤ :=
  (signOf f).apply (magnitude f)

theorem isFinite_iff_rank : f.isFinite = true ↔ |rank f| < infinityBits := by
  rw [isFinite_iff, rank]
  cases signOf f <;> simp [Sign.apply]

theorem isNaN_iff_rank : f.isNaN = true ↔ infinityBits < |rank f| := by
  rw [isNaN_iff, rank]
  cases signOf f <;> simp [Sign.apply]

theorem isNaN_of_rank (same : rank f = rank g) (number : g.isNaN = false) : f.isNaN = false := by
  rwa [← Bool.not_eq_true, isNaN_iff_rank, same, ← isNaN_iff_rank, Bool.not_eq_true]

theorem Binary.Finite.bits_lt_iff {c : Binary} (hb : b.Finite) (hc : c.Finite) : b.bits < c.bits ↔
    b.exponent < c.exponent ∨ b.exponent = c.exponent ∧ b.significand < c.significand := by
  have ⟨_, lowB, _, smallB, normalB⟩ := hb
  have ⟨_, lowC, _, smallC, normalC⟩ := hc
  rw [b.bits_eq, c.bits_eq]
  omega

/-- Where a float that is a number stands in the line, by its rank. -/
theorem place_of_rank (number : f.isNaN = false) :
    rank f = 0 ∧ place f = toLex (0, toLex (0, 0)) ∨
      (∃ b : Binary, b.Finite ∧
        (rank f = b.bits ∧ place f = toLex (1, toLex (b.exponent, (b.significand : ℤ))) ∨
          rank f = -b.bits ∧ place f = toLex (-1, toLex (-b.exponent, -(b.significand : ℤ))))) ∨
      rank f = infinityBits ∧ place f = toLex (2, toLex (0, 0)) ∨
      rank f = -infinityBits ∧ place f = toLex (-2, toLex (0, 0)) := by
  have bound : magnitude f ≤ infinityBits := by
    rwa [← not_lt, ← isNaN_iff, Bool.not_eq_true]
  unfold place rank
  rw [unpack_eq_decode]
  rcases bound.lt_or_eq with below | top
  · rcases Nat.eq_zero_or_pos (magnitude f) with zero | positive
    · refine .inl ?_
      rw [zero]
      cases signOf f <;> exact ⟨rfl, rfl⟩
    · obtain ⟨finite, bits⟩ := Binary.finite_ofBits positive below
      refine .inr (.inl ⟨_, finite, ?_⟩)
      rw [decode_of_finite below rfl finite.positive, bits]
      cases signOf f with
      | positive => exact .inl ⟨rfl, rfl⟩
      | negative => exact .inr ⟨rfl, rfl⟩
  · rw [top]
    cases signOf f with
    | positive => exact .inr (.inr (.inl ⟨rfl, rfl⟩))
    | negative => exact .inr (.inr (.inr ⟨rfl, rfl⟩))

theorem place_lt_of_rank (hf : f.isNaN = false) (hg : g.isNaN = false) (h : rank f < rank g) :
    place f < place g := by
  obtain ⟨rf, pf⟩ | ⟨b, hb, ⟨rf, pf⟩ | ⟨rf, pf⟩⟩ | ⟨rf, pf⟩ | ⟨rf, pf⟩ := place_of_rank hf <;>
    obtain ⟨rg, pg⟩ | ⟨c, hc, ⟨rg, pg⟩ | ⟨rg, pg⟩⟩ | ⟨rg, pg⟩ | ⟨rg, pg⟩ := place_of_rank hg <;>
    rw [rf, rg] at h <;> rw [pf, pg] <;> simp only [Prod.Lex.toLex_lt_toLex]
  -- the first coordinate decides, or the ranks are not in this order
  all_goals first | (simp; done) | omega | skip
  · simpa using (hb.bits_lt_iff hc).1 (by omega)
  · simpa [eq_comm] using (hc.bits_lt_iff hb).1 (by omega)
  · exact absurd hb.bits_lt (by omega)
  · exact absurd hc.bits_lt (by omega)

theorem place_of_zero (zero : magnitude f = 0) : place f = toLex (0, toLex (0, 0)) := by
  rw [place, unpack_eq_decode, zero]
  rfl

theorem place_eq_of_rank (h : rank f = rank g) : place f = place g := by
  unfold rank at h
  cases hf : signOf f <;> cases hg : signOf g <;> simp only [hf, hg, Sign.apply] at h
  · rw [eq_of_parts (hf.trans hg.symm) (by omega)]
  · rw [place_of_zero (by omega), place_of_zero (by omega)]
  · rw [place_of_zero (by omega), place_of_zero (by omega)]
  · rw [eq_of_parts (hf.trans hg.symm) (by omega)]

/-- Floats are ordered as their patterns are. -/
theorem lt_iff_rank (hf : f.isNaN = false) (hg : g.isNaN = false) :
    f < g ↔ rank f < rank g := by
  rw [lt_iff_place hf hg]
  refine ⟨fun less => ?_, place_lt_of_rank hf hg⟩
  rcases lt_trichotomy (rank f) (rank g) with h | h | h
  · exact h
  · exact absurd (place_eq_of_rank h) less.ne
  · exact absurd less (place_lt_of_rank hg hf h).asymm

/-! ## Rounding keeps the order -/

theorem nearestBits_zero (den : ℕ) : nearestBits 0 den = 0 := by
  simp [nearestBits]

theorem nearestBits_le_of_value {n : ℕ} (finite : n < infinityBits) (hden : 0 < den)
    (h : (num : ℚ) / den ≤ (Binary.ofBits n).value) : nearestBits num den ≤ n := by
  rcases Nat.eq_zero_or_pos n with rfl | positive
  · have none : num = 0 := by
      rw [Binary.value_ofBits_zero, div_le_iff₀ (by exact_mod_cast hden), zero_mul] at h
      exact Nat.le_zero.1 (by exact_mod_cast h)
    rw [none, nearestBits_zero]
  · obtain ⟨double, bits⟩ := Binary.finite_ofBits positive finite
    exact (nearestBits_le double hden h).trans bits.le

theorem le_nearestBits_of_value {n : ℕ} (finite : n < infinityBits) (hden : 0 < den)
    (h : (Binary.ofBits n).value ≤ (num : ℚ) / den) : n ≤ nearestBits num den := by
  rcases Nat.eq_zero_or_pos n with rfl | positive
  · exact Nat.zero_le _
  · obtain ⟨double, bits⟩ := Binary.finite_ofBits positive finite
    exact bits.ge.trans (le_nearestBits double hden h)

theorem rank_rounded (x : ℚ) : rank (rounded x) =
    if x < 0 then -(nearestBits x.num.natAbs x.den : ℤ) else nearestBits x.num.natAbs x.den := by
  obtain ⟨sign, bits⟩ := parts_rounded x
  rw [rank, sign, bits]
  split <;> rfl

/-- A number that is not above a float is not rounded to one above it. -/
theorem rank_rounded_le (finite : g.isFinite = true) (h : x ≤ value g) :
    rank (rounded x) ≤ rank g := by
  have below := isFinite_iff.1 finite
  have size := abs_eq_div x
  have least := (Binary.ofBits (magnitude g)).value_nonneg
  rw [rank_rounded, rank]
  cases sign : signOf g with
  | positive =>
    rw [value_of_positive sign] at h
    dsimp only [Sign.apply]
    split_ifs with negative
    · omega
    · rw [abs_of_nonneg (not_lt.1 negative)] at size
      exact_mod_cast nearestBits_le_of_value below x.pos (size.symm.le.trans h)
  | negative =>
    rw [value_of_negative sign] at h
    dsimp only [Sign.apply]
    split_ifs with negative
    · rw [abs_of_neg negative] at size
      have order := le_nearestBits_of_value below x.pos (size.symm.ge.trans' (by linarith))
      omega
    · have zero : x = 0 := by linarith
      have bits := nearestBits_le_of_value (n := 0) (by decide) x.pos (by
        rw [← size, zero, Binary.value_ofBits_zero, abs_zero])
      have order := le_nearestBits_of_value below x.pos (size.symm.ge.trans' (by
        rw [zero, abs_zero]
        linarith))
      omega

theorem rank_neg (number : f.isNaN = false) : rank (-f) = -rank f := by
  obtain ⟨sign, same⟩ := parts_neg number
  rw [rank, rank, sign, same]
  cases signOf f
  · exact (Int.neg_neg _).symm
  · rfl

theorem value_neg (finite : f.isFinite = true) : value (-f) = -value f := by
  obtain ⟨sign, same⟩ := parts_neg (isNaN_of_isFinite finite)
  cases h : signOf f with
  | positive =>
    rw [h] at sign
    rw [value_of_positive h, value_of_negative sign, same]
  | negative =>
    rw [h] at sign
    rw [value_of_negative h, value_of_positive sign, same]
    ring

theorem rank_rounded_neg (x : ℚ) : rank (rounded (-x)) = -rank (rounded x) := by
  rw [rank_rounded, rank_rounded]
  rw [Rat.neg_num, Int.natAbs_neg, Rat.neg_den]
  simp only [Left.neg_neg_iff]
  rcases lt_trichotomy x 0 with h | rfl | h
  · rw [if_neg h.asymm, if_pos h]
    omega
  · simp [nearestBits_zero]
  · rw [if_pos h, if_neg h.asymm]

/-- A number that is not below a float is not rounded to one below it. -/
theorem le_rank_rounded (finite : g.isFinite = true) (h : value g ≤ x) :
    rank g ≤ rank (rounded x) := by
  have mirrored := rank_rounded_le (isFinite_neg finite)
    ((neg_le_neg h).trans (value_neg finite).ge)
  rw [rank_rounded_neg, rank_neg (isNaN_of_isFinite finite)] at mirrored
  exact neg_le_neg_iff.1 mirrored

theorem rank_rounded_mono (h : x ≤ y) : rank (rounded x) ≤ rank (rounded y) := by
  have size := abs_eq_div x
  have size' := abs_eq_div y
  rw [rank_rounded, rank_rounded]
  rcases lt_or_ge x 0 with negative | positive
  · rw [if_pos negative]
    rcases lt_or_ge y 0 with negative' | positive'
    · rw [if_pos negative']
      have mirrored : nearestBits y.num.natAbs y.den ≤ nearestBits x.num.natAbs x.den :=
        nearestBits_mono y.den_pos x.den_pos (by
          rw [← size, ← size', abs_of_neg negative, abs_of_neg negative']
          exact neg_le_neg h)
      omega
    · rw [if_neg positive'.not_gt]
      omega
  · rw [if_neg positive.not_gt, if_neg (positive.trans h).not_gt]
    have same : nearestBits x.num.natAbs x.den ≤ nearestBits y.num.natAbs y.den :=
      nearestBits_mono x.den_pos y.den_pos (by
        rwa [← size, ← size', abs_of_nonneg positive, abs_of_nonneg (positive.trans h)])
    omega

end TableQuery.Number
