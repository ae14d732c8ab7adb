import TableQuery.Proofs.Number.Negation
import TableQuery.Proofs.Number.Rounding

/-!
# Bit patterns

The pattern of a float is a sign and a magnitude, and the magnitude alone tells the finite floats,
the infinities and what is not a number apart.
-/

namespace TableQuery.Number

open Float.Model UnpackedFloat

variable {f g : Float}

/-! ## Parts -/

theorem toNat_packComponents {spec : Format} (s : Sign) (e : BitVec spec.exponentBits)
    (m : BitVec spec.mantissaBitsWithoutImplicit) : (packComponents spec s e m).toNat
      = (s.toBitVec.toNat * 2 ^ spec.exponentBits + e.toNat) * 2 ^ spec.mantissaBitsWithoutImplicit
        + m.toNat := by
  rw [packComponents, BitVec.toNat_append, ← Nat.shiftLeft_add_eq_or_of_lt m.isLt, Nat.shiftLeft_eq,
    BitVec.toNat_append, ← Nat.shiftLeft_add_eq_or_of_lt e.isLt, Nat.shiftLeft_eq]

/-- The bit pattern without the sign. -/
def magnitude (f : Float) : ℕ :=
  f.toBits.toNat % 2 ^ 63

/-- The sign bit. -/
def signOf (f : Float) : Sign :=
  Sign.ofBitVec (@unpackSign .binary64 f.toBits.toBitVec)

/-- The parts of a pattern: the sign bit, the exponent and the mantissa. -/
theorem toNat_toBits (f : Float) : f.toBits.toNat
      = ((signOf f).toBitVec.toNat * 2 ^ 11 + (@unpackExponent .binary64 f.toBits.toBitVec).toNat)
        * 2 ^ 52 + (@unpackMantissa .binary64 f.toBits.toBitVec).toNat := by
  have parts := @toNat_packComponents .binary64 (signOf f)
    (@unpackExponent .binary64 f.toBits.toBitVec) (@unpackMantissa .binary64 f.toBits.toBitVec)
  rw [signOf, packComponents_unpackSign_unpackExponent_unpackMantissa] at parts
  exact parts

theorem exponent_lt (f : Float) : (@unpackExponent .binary64 f.toBits.toBitVec).toNat < 2 ^ 11 :=
  (@unpackExponent .binary64 f.toBits.toBitVec).isLt

theorem mantissa_lt (f : Float) : (@unpackMantissa .binary64 f.toBits.toBitVec).toNat < 2 ^ 52 :=
  (@unpackMantissa .binary64 f.toBits.toBitVec).isLt

theorem magnitude_eq (f : Float) : magnitude f
      = (@unpackExponent .binary64 f.toBits.toBitVec).toNat * 2 ^ 52
        + (@unpackMantissa .binary64 f.toBits.toBitVec).toNat := by
  have exponent := exponent_lt f
  have mantissa := mantissa_lt f
  rw [magnitude, toNat_toBits]
  cases signOf f <;> simp [Sign.toBitVec] <;> omega

theorem signOf_eq_negative_iff : signOf f = .negative ↔ 2 ^ 63 ≤ f.toBits.toNat := by
  have exponent := exponent_lt f
  have mantissa := mantissa_lt f
  rw [toNat_toBits]
  cases signOf f <;> simp [Sign.toBitVec] <;> omega

/-- A pattern is its sign bit and its magnitude. -/
theorem toBits_of_positive (positive : signOf f = .positive) : f.toBits.toNat = magnitude f := by
  have bound : f.toBits.toNat < 2 ^ 63 := by
    by_contra high
    have negative := signOf_eq_negative_iff.2 (not_lt.1 high)
    rw [positive] at negative
    cases negative
  exact (Nat.mod_eq_of_lt bound).symm

theorem toBits_of_negative (negative : signOf f = .negative) :
    f.toBits.toNat = 2 ^ 63 + magnitude f := by
  have bound : f.toBits.toNat < 2 ^ 64 := f.toBits.toBitVec.isLt
  have low := signOf_eq_negative_iff.1 negative
  rw [magnitude]
  omega

/-! ## Decoded patterns -/

/-- The float that a sign and a magnitude denote. -/
def decode (s : Sign) (n : ℕ) : UnpackedFloat :=
  if infinityBits < n then .notANumber
  else if n = infinityBits then .infinity s
  else if positive : 0 < (Binary.ofBits n).significand then
    .finite s (Binary.ofBits n).significand (Binary.ofBits n).exponent positive
  else .zero s

theorem decode_of_finite {s : Sign} {n : ℕ} {b : Binary} (finite : n < infinityBits)
    (parts : Binary.ofBits n = b) (positive : 0 < b.significand) :
    decode s n = .finite s b.significand b.exponent positive := by
  subst parts
  rw [decode, if_neg finite.le.not_gt, if_neg finite.ne, dif_pos positive]

theorem ofBits_parts {e m : ℕ} (he : e < 2 ^ 11) (hm : m < 2 ^ 52) :
    Binary.ofBits (e * 2 ^ 52 + m) =
      if e = 0 then ⟨m, -1074⟩ else ⟨m + 2 ^ 52, (e : ℤ) - 1075⟩ := by
  have big : pow2 52 = 2 ^ 52 := rfl
  have fields : pow2 11 = 2 ^ 11 := rfl
  have field : (e * 2 ^ 52 + m) / 2 ^ 52 % 2 ^ 11 = e := by omega
  have fraction : (e * 2 ^ 52 + m) % 2 ^ 52 = m := by omega
  simp only [Binary.ofBits, big, fields, field, fraction, beq_iff_eq]

theorem unpack_eq_decode (f : Float) : f.toModel.unpack = decode (signOf f) (magnitude f) := by
  have exponent := exponent_lt f
  have mantissa := mantissa_lt f
  have parts := ofBits_parts exponent mantissa
  rw [← magnitude_eq] at parts
  have size := magnitude_eq f
  have top : infinityBits = 2047 * 2 ^ 52 := rfl
  show UnpackedFloat.unpack .binary64 f.toBits.toBitVec = _
  unfold UnpackedFloat.unpack
  dsimp only
  -- infinite, not a number, zero, below the least exponent, and with a leading bit
  split_ifs with ones none zero none
  · have full := congrArg BitVec.toNat ones
    have empty := congrArg BitVec.toNat none
    rw [decode, if_neg, if_pos]
    · rfl
    all_goals simp at full empty; omega
  · have full := congrArg BitVec.toNat ones
    have some : (@unpackMantissa .binary64 f.toBits.toBitVec).toNat ≠ 0 :=
      fun empty => none (BitVec.eq_of_toNat_eq empty)
    rw [decode, if_pos]
    simp at full
    omega
  · have least := congrArg BitVec.toNat zero
    have empty := congrArg BitVec.toNat none
    simp only [BitVec.toNat_zero] at least empty
    rw [decode, if_neg (by omega), if_neg (by omega), dif_neg]
    · rfl
    · rw [parts, if_pos least]
      exact Nat.not_lt.2 (Nat.le_of_eq empty)
  · have least : _ = 0 := congrArg BitVec.toNat zero
    have some : (@unpackMantissa .binary64 f.toBits.toBitVec).toNat ≠ 0 :=
      fun empty => none (BitVec.eq_of_toNat_eq empty)
    rw [if_pos least] at parts
    rw [decode_of_finite (by omega) parts (Nat.pos_of_ne_zero some)]
    congr 1
    rw [least]
    rfl
  · have below : (@unpackExponent .binary64 f.toBits.toBitVec).toNat ≠ 2047 :=
      fun full => ones (BitVec.eq_of_toNat_eq full)
    have above : (@unpackExponent .binary64 f.toBits.toBitVec).toNat ≠ 0 :=
      fun least => zero (BitVec.eq_of_toNat_eq least)
    rw [if_neg above] at parts
    rw [decode_of_finite (by omega) parts (by simp)]
    congr 1
    · rw [BitVec.toNat_append, ← Nat.shiftLeft_add_eq_or_of_lt mantissa]
      simp [Nat.add_comm]

/-! ## Kinds of floats -/

theorem isNaN_iff : f.isNaN = true ↔ infinityBits < magnitude f := by
  rw [← not_iff_not, Bool.not_eq_true, isNaN_eq_false_iff, unpack_eq_decode, decode]
  split_ifs <;> simp_all

theorem isFinite_iff : f.isFinite = true ↔ magnitude f < infinityBits := by
  show f.toModel.unpack.isFinite = true ↔ _
  rw [unpack_eq_decode, decode]
  split_ifs with above same positive
  · exact iff_of_false Bool.false_ne_true above.le.not_gt
  · exact iff_of_false Bool.false_ne_true same.not_lt
  · exact iff_of_true rfl (lt_of_le_of_ne (not_lt.1 above) same)
  · exact iff_of_true rfl (lt_of_le_of_ne (not_lt.1 above) same)

theorem eq_of_parts (sign : signOf f = signOf g) (same : magnitude f = magnitude g) : f = g := by
  apply Float.toBits_inj.1
  apply UInt64.toNat_inj.1
  cases h : signOf f with
  | positive => rw [toBits_of_positive h, toBits_of_positive (sign ▸ h), same]
  | negative => rw [toBits_of_negative h, toBits_of_negative (sign ▸ h), same]

/-- Patterns up to the one of infinity are kept. -/
theorem toNat_toBits_ofBits {n : ℕ} (number : n ≤ infinityBits) :
    (Float.ofBits (.ofNat n)).toBits.toNat = n := by
  have packed : (Float.ofBits (.ofNat n)).toBits.toBitVec =
      if @isNaNBits .binary64 (UInt64.ofNat n).toBitVec then packedNaN .binary64
      else (UInt64.ofNat n).toBitVec := @pack_unpack .binary64 (UInt64.ofNat n).toBitVec (by decide)
  have bound : n < 2 ^ 64 := by
    rw [infinityBits] at number
    omega
  split at packed
  · have number := isNaN_ofBits number
    rw [Float.isNaN_eq_decide_eq_nan, decide_eq_false_iff_not] at number
    exact absurd (Float.toBits_inj.1 (UInt64.toBitVec_inj.1 packed)) number
  · rw [UInt64.toBitVec_inj.1 packed]
    exact UInt64.toNat_ofNat_of_lt bound

theorem signOf_ofBits {n : ℕ} (number : n ≤ infinityBits) :
    signOf (Float.ofBits (.ofNat n)) = .positive := by
  cases h : signOf (Float.ofBits (.ofNat n)) with
  | positive => rfl
  | negative =>
    have high := signOf_eq_negative_iff.1 h
    rw [toNat_toBits_ofBits number] at high
    rw [infinityBits] at number
    omega

theorem magnitude_ofBits {n : ℕ} (number : n ≤ infinityBits) :
    magnitude (Float.ofBits (.ofNat n)) = n := by
  rw [← toBits_of_positive (signOf_ofBits number), toNat_toBits_ofBits number]

/-- The negated float has the other sign. -/
theorem parts_neg (number : f.isNaN = false) :
    signOf (-f) = -signOf f ∧ magnitude (-f) = magnitude f := by
  rw [isNaN_eq_false_iff] at number
  have packed : (-f).toBits.toBitVec = packComponents .binary64 (-signOf f)
      (@unpackExponent .binary64 f.toBits.toBitVec) (@unpackMantissa .binary64 f.toBits.toBitVec) :=
    @pack_neg .binary64 (by decide) _ number
  rw [magnitude_eq, magnitude_eq, signOf, packed]
  simp

theorem isNaN_of_isFinite (finite : f.isFinite = true) : f.isNaN = false := by
  rw [← Bool.not_eq_true, isNaN_iff]
  exact (isFinite_iff.1 finite).le.not_gt

theorem isFinite_neg (finite : f.isFinite = true) : (-f).isFinite = true := by
  rw [isFinite_iff, (parts_neg (isNaN_of_isFinite finite)).2]
  exact isFinite_iff.1 finite

/-- A finite float is its sign and its magnitude, which is below the one of infinity. -/
theorem magnitude_of_isFinite (finite : f.isFinite = true) :
    f.toBits.toNat % 2 ^ 63 < infinityBits ∧ (f.toBits.toNat < 2 ^ 63 ∨
      (-f).toBits.toNat + 2 ^ 63 = f.toBits.toNat) := by
  obtain ⟨sign, same⟩ := parts_neg (isNaN_of_isFinite finite)
  refine ⟨isFinite_iff.1 finite, ?_⟩
  cases h : signOf f with
  | positive =>
    rw [toBits_of_positive h]
    exact .inl (Nat.mod_lt _ (by decide))
  | negative =>
    rw [h] at sign
    rw [toBits_of_negative h, toBits_of_positive sign, same, Nat.add_comm]
    exact .inr rfl

end TableQuery.Number
