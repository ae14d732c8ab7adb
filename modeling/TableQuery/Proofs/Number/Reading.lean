import TableQuery.Number.Decimal
import TableQuery.Proofs.Number.FloatOrder

/-!
# Texts denote numbers

A text that starts like a decimal number is never read as a float that is not a number: such a float
comes from its name alone.
-/

namespace TableQuery.Number

open Float.Model Text

/-! ## Bit patterns -/

theorem unpack_eq_notANumber_iff {spec : Format} {b : BitVec spec.numBits} :
    UnpackedFloat.unpack spec b = .notANumber ↔
      UnpackedFloat.unpackExponent b = -1#_ ∧ UnpackedFloat.unpackMantissa b ≠ 0#_ := by
  unfold UnpackedFloat.unpack
  dsimp only
  by_cases he : UnpackedFloat.unpackExponent b = -1#_
  · by_cases hm : UnpackedFloat.unpackMantissa b = 0#_ <;> simp [he, hm]
  · simp only [he, if_false, false_and, iff_false]
    split
    · split <;> simp
    · simp

theorem unpack_packComponents_ne {spec : Format} {sign : UnpackedFloat.Sign}
    {e : BitVec spec.exponentBits} {m : BitVec spec.mantissaBitsWithoutImplicit}
    (h : e = -1#_ → m = 0#_) :
    UnpackedFloat.unpack spec (UnpackedFloat.packComponents spec sign e m) ≠ .notANumber := by
  rw [Ne, unpack_eq_notANumber_iff, UnpackedFloat.unpackExponent_packComponents,
    UnpackedFloat.unpackMantissa_packComponents]
  exact fun ⟨he, hm⟩ => hm (h he)

/-- Packing does not lose that a float is a number. -/
theorem unpack_pack_ne {spec : Format} {f : UnpackedFloat} (h : f ≠ .notANumber) :
    UnpackedFloat.unpack spec (UnpackedFloat.pack spec f) ≠ .notANumber := by
  fun_cases UnpackedFloat.pack with
  | case1 => exact absurd rfl h
  | case2 s => exact unpack_packComponents_ne fun _ => rfl
  | case3 s => exact unpack_packComponents_ne fun _ => rfl
  | case4 s m e hm biased overflow => exact unpack_packComponents_ne fun _ => rfl
  | case5 s m e hm bits biased fits normal =>
    -- the exponent of a normal number is not all ones
    refine unpack_packComponents_ne fun he => ?_
    exfalso
    have exponent := congrArg BitVec.toNat he
    rw [BitVec.neg_one_eq_allOnes, BitVec.toNat_ofNat, BitVec.toNat_allOnes] at exponent
    have small : biased < 2 ^ spec.exponentBits := by omega
    rw [Nat.mod_eq_of_lt small] at exponent
    omega
  | case6 s m e hm bits biased fits subnormal =>
    refine unpack_packComponents_ne fun he => ?_
    simp [Nat.pos_iff_ne_zero.1 spec.he] at he

/-! ## Floats -/

/-- Bit patterns up to the one of infinity are those of numbers. -/
theorem isNaN_ofBits {n : Nat} (h : n ≤ infinityBits) :
    (Float.ofBits (.ofNat n)).isNaN = false := by
  rw [isNaN_eq_false_iff]
  refine unpack_pack_ne ?_
  rw [Ne, unpack_eq_notANumber_iff, not_and, not_not]
  intro he
  have exponent := congrArg BitVec.toNat he
  apply BitVec.eq_of_toNat_eq
  simp [UnpackedFloat.unpackMantissa, UnpackedFloat.unpackExponent,
    Nat.shiftRight_eq_div_pow] at exponent ⊢
  unfold infinityBits at h
  omega

theorem isNaN_neg {f : Float} (h : f.isNaN = false) : (-f).isNaN = false := by
  rw [isNaN_eq_false_iff] at h ⊢
  refine unpack_pack_ne ?_
  generalize f.toModel.unpack = u at h
  cases u <;> simp_all [UnpackedFloat.neg]

theorem isNaN_nearest (num den : Nat) : (nearest num den).isNaN = false := by
  refine isNaN_ofBits ?_
  unfold nearestBits
  split
  · exact Nat.zero_le _
  · exact Nat.min_le_left ..

theorem isFinite_of_isNaN {f : Float} (h : f.isNaN = true) : f.isFinite = false := by
  rw [← Bool.not_eq_false, isNaN_eq_false_iff, not_not] at h
  show f.toModel.unpack.isFinite = false
  rw [h]
  rfl

/-! ## Readings -/

theorem Decimal.isNaN_toFloat (d : Decimal) : d.toFloat.isNaN = false := by
  unfold toFloat
  dsimp only
  split
  · decide +kernel
  · split
    · exact isNaN_ofBits (Nat.le_refl _)
    · split <;> exact isNaN_nearest ..

theorem toLower_of_isDigit {c : Char} (h : isDigit c = true) : c.toLower = c := by
  have digit : c.toNat ≤ 57 := by
    unfold isDigit Char.isDigit at h
    rw [Bool.and_eq_true, decide_eq_true_eq, decide_eq_true_eq] at h
    exact UInt32.le_iff_toNat_le.mp h.2
  unfold Char.toLower
  rw [dif_neg]
  rintro ⟨upper, -⟩
  have upper : 65 ≤ c.toNat := UInt32.le_iff_toNat_le.mp upper
  omega

theorem ofList_cons_ne {c d : Char} {cs ds : List Char} (h : c ≠ d) :
    String.ofList (c :: cs) ≠ String.ofList (d :: ds) := by
  rw [Ne, String.ofList_inj, List.cons_eq_cons]
  exact fun heads => h heads.1

/-- What starts with a digit, or with a point and a digit, is not the name of anything. -/
theorem readSpecial?_of_looksNumeric {cs : List Char} (h : looksNumeric cs = true) :
    readSpecial? (splitSign cs).2 = none := by
  unfold looksNumeric at h
  unfold readSpecial?
  generalize (splitSign cs).2 = body at h
  have first : ∃ c rest, body = c :: rest ∧ c.toLower = c ∧ c ≠ 'i' ∧ c ≠ 'n' := by
    split at h
    · exact ⟨_, _, rfl, by decide, by decide, by decide⟩
    · rename_i d rest _
      refine ⟨d, rest, rfl, toLower_of_isDigit h, ?_, ?_⟩
      · rintro rfl
        revert h
        decide
      · rintro rfl
        revert h
        decide
    · cases h
  obtain ⟨c, rest, rfl, lower, hi, hn⟩ := first
  rw [List.map_cons, lower]
  split
  · rename_i name
    exact absurd name (ofList_cons_ne hi)
  · rename_i name
    exact absurd name (ofList_cons_ne hi)
  · rename_i name
    exact absurd name (ofList_cons_ne hn)
  · rfl

theorem isNaN_readFloat? {cs : List Char} (h : looksNumeric cs = true) {f : Float}
    (hf : readFloat? cs = some f) : f.isNaN = false := by
  unfold readFloat? at hf
  rw [show splitSign cs = ((splitSign cs).1, (splitSign cs).2) from rfl] at hf
  dsimp only at hf
  rw [readSpecial?_of_looksNumeric h, Option.or_none, Option.map_map, Option.map_eq_some_iff] at hf
  obtain ⟨d, -, rfl⟩ := hf
  have number := d.isNaN_toFloat
  dsimp only [Function.comp]
  split
  · exact isNaN_neg number
  · exact number

end TableQuery.Number
