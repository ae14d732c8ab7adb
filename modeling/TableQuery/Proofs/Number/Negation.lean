import TableQuery.Proofs.Number.Reading

/-!
# Negation

A float that is negated twice is the same float, whether it is a number or not.
-/

namespace TableQuery.Number
open Float.Model UnpackedFloat

/-- The bit pattern with the other sign is the one of the negated float. -/
theorem unpack_negate {spec : Format} (s : UnpackedFloat.Sign) (e : BitVec spec.exponentBits)
    (m : BitVec spec.mantissaBitsWithoutImplicit) :
    UnpackedFloat.unpack spec (packComponents spec (-s) e m)
      = (UnpackedFloat.unpack spec (packComponents spec s e m)).neg := by
  unfold UnpackedFloat.unpack
  simp only [unpackExponent_packComponents, unpackMantissa_packComponents,
    unpackSign_packComponents, Sign.ofBitVec_toBitVec]
  split
  · split <;> rfl
  · split
    · split <;> rfl
    · rfl

/-- A number is negated by the other sign. -/
theorem pack_neg {spec : Format} (wide : 2 ≤ spec.exponentBits) {b : BitVec spec.numBits}
    (number : UnpackedFloat.unpack spec b ≠ .notANumber) :
    UnpackedFloat.pack spec (UnpackedFloat.unpack spec b).neg
      = packComponents spec (-Sign.ofBitVec (unpackSign b)) (unpackExponent b) (unpackMantissa b) := by
  have flipped := unpack_negate (Sign.ofBitVec (unpackSign b)) (unpackExponent b) (unpackMantissa b)
  rw [packComponents_unpackSign_unpackExponent_unpackMantissa] at flipped
  -- the pattern with the other sign is valid, since it is one of a number as well
  have valid : spec.Valid (packComponents spec (-Sign.ofBitVec (unpackSign b)) (unpackExponent b)
      (unpackMantissa b)) := by
    refine ⟨fun exponent mantissa => absurd ?_ number⟩
    rw [unpackExponent_packComponents] at exponent
    rw [unpackMantissa_packComponents] at mantissa
    exact unpack_eq_notANumber_iff.2 ⟨exponent, mantissa⟩
  rw [← flipped, pack_unpack_of_valid valid wide]

/-- What is negated is packed without loss. -/
theorem unpack_pack_neg {spec : Format} (wide : 2 ≤ spec.exponentBits) (b : BitVec spec.numBits) :
    UnpackedFloat.unpack spec (UnpackedFloat.pack spec (UnpackedFloat.unpack spec b).neg)
      = (UnpackedFloat.unpack spec b).neg := by
  by_cases number : UnpackedFloat.unpack spec b = .notANumber
  · rw [number]
    exact unpack_packedNaN
  · rw [pack_neg wide number, unpack_negate, packComponents_unpackSign_unpackExponent_unpackMantissa]

theorem neg_neg (f : Float) : - -f = f := by
  obtain ⟨⟨bits, valid⟩⟩ := f
  have wide : 2 ≤ Format.binary64.exponentBits := by decide
  have negated := unpack_pack_neg wide bits.toBitVec
  have twice (u : UnpackedFloat) : u.neg.neg = u := by
    cases u with
    | notANumber => rfl
    | infinity s | zero s | finite s => cases s <;> rfl
  have packed : (- -(⟨⟨bits, valid⟩⟩ : Float)).toModel.toBits.toBitVec = bits.toBitVec := by
    show UnpackedFloat.pack .binary64 (UnpackedFloat.unpack .binary64
      (UnpackedFloat.pack .binary64 (UnpackedFloat.unpack .binary64 bits.toBitVec).neg)).neg = _
    rw [negated, twice, pack_unpack_of_valid valid]
  exact Float.toBits_inj.1 (UInt64.toBitVec_inj.1 packed)

end TableQuery.Number
