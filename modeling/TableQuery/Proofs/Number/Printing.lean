import TableQuery.Number.Decimal
import TableQuery.Text.Character
import TableQuery.Proofs.Number.Patterns
import TableQuery.Proofs.Number.Shortest

/-!
# Texts of doubles are read back

The shortest text of a finite double is read as the double.
-/

namespace TableQuery.Number

open Text

/-! ## Digits -/

/-- Digits are not blank. -/
theorem isBlank_of_isDigit {c : Char} (h : isDigit c = true) : isBlank c = false := by
  simp only [isDigit, Char.isDigit, Bool.and_eq_true, decide_eq_true_eq] at h
  have low : '0'.toNat ≤ c.toNat := h.1
  have high : c.toNat ≤ '9'.toNat := h.2
  have zero : '0'.toNat = 48 := rfl
  have nine : '9'.toNat = 57 := rfl
  simp only [isBlank, Bool.or_eq_false_iff, Bool.and_eq_false_iff, decide_eq_false_iff_not,
    beq_eq_false_iff_ne]
  omega

theorem ofDigits_append (ds es : List Char) :
    ofDigits (ds ++ es) = ofDigits ds * 10 ^ es.length + ofDigits es := by
  have append : ofDigits (ds ++ es) = Nat.ofDigitChars 10 es (ofDigits ds) := Nat.ofDigitChars_append 0
  rw [append, Nat.ofDigitChars_eq_ofDigitChars_zero, Nat.mul_comm]
  rfl

theorem ofDigits_zeros (n : ℕ) : ofDigits (List.replicate n '0') = 0 :=
  (Nat.ofDigitChars_replicate_zero).trans (Nat.mul_zero _)

theorem ofDigits_toDigits (n : ℕ) : ofDigits (Nat.toDigits 10 n) = n :=
  Nat.ofDigitChars_toDigits (by decide) (by decide)

/-- The characters without zeros at the end, and the zeros. -/
theorem exists_zeros (ds : List Char) :
    ∃ n, ds = (dropZeros ds.reverse).reverse ++ List.replicate n '0' := by
  refine ⟨(ds.reverse.takeWhile (· == '0')).length, ?_⟩
  have zeros : ds.reverse.takeWhile (· == '0')
      = List.replicate (ds.reverse.takeWhile (· == '0')).length '0' :=
    List.eq_replicate_iff.2 ⟨rfl, fun c member =>
      beq_iff_eq.1 (List.mem_takeWhile_imp (p := (· == '0')) member)⟩
  rw [← List.reverse_replicate, ← zeros, ← List.reverse_append, dropZeros,
    List.takeWhile_append_dropWhile, List.reverse_reverse]

/-- Digits with a fraction, if there is one, that denote a number. -/
structure Denotes (cs : List Char) (x : ℚ) (whole fraction : List Char) : Prop where
  text : cs = whole ++ if fraction.isEmpty then [] else '.' :: fraction
  nonempty : whole ≠ []
  digits : ∀ c ∈ whole ++ fraction, isDigit c = true
  value : (ofDigits (whole ++ fraction) : ℚ) = x * 10 ^ fraction.length

theorem isDigit_of_mem_padded {n d : ℕ} :
    ∀ c ∈ List.replicate n '0' ++ Nat.toDigits 10 d, isDigit c = true := by
  intro c member
  rcases List.mem_append.1 member with zero | digit
  · rw [List.eq_of_mem_replicate zero]
    rfl
  · exact Nat.isDigit_of_mem_toDigits (by decide) (by decide) digit

theorem ofDigits_padded (n d : ℕ) : ofDigits (List.replicate n '0' ++ Nat.toDigits 10 d) = d := by
  rw [ofDigits_append, ofDigits_zeros, ofDigits_toDigits, Nat.zero_mul, Nat.zero_add]

/-- A point in front of the last digits. -/
theorem denotes_point {ds whole fraction : List Char} {places : ℕ}
    (digits : ∀ c ∈ ds, isDigit c = true) (long : places < ds.length)
    (first : ds.take (ds.length - places) = whole)
    (last : (dropZeros (ds.drop (ds.length - places)).reverse).reverse = fraction) :
    Denotes (if fraction.isEmpty then whole else whole ++ '.' :: fraction)
      (ofDigits ds * 10 ^ (-(places : ℤ))) whole fraction := by
  obtain ⟨zeros, dropped⟩ := exists_zeros (ds.drop (ds.length - places))
  have length : (ds.drop (ds.length - places)).length = places := by
    rw [List.length_drop]
    omega
  have split := List.take_append_drop (ds.length - places) ds
  rw [last] at dropped
  rw [first, dropped, ← List.append_assoc] at split
  rw [dropped, List.length_append, List.length_replicate] at length
  constructor
  · split <;> simp
  · rintro rfl
    have none := congrArg List.length first
    rw [List.length_take, List.length_nil] at none
    omega
  · intro c member
    refine digits c ?_
    rw [← split]
    exact List.mem_append_left _ member
  · rw [← split, ofDigits_append (whole ++ fraction), ofDigits_zeros, List.length_replicate, ← length,
      zpow_neg, zpow_natCast]
    push_cast
    field_simp
    ring

theorem positional_denotes (d : ℕ) (e : ℤ) :
    ∃ whole fraction, Denotes (positional d e).toList (d * 10 ^ e) whole fraction := by
  unfold positional
  dsimp only
  split <;> rename_i sign
  · refine ⟨Nat.toDigits 10 d ++ List.replicate e.toNat '0', [], ?_, ?_, ?_, ?_⟩
    · rw [String.toList_ofList]
      exact (List.append_nil _).symm
    · exact List.append_ne_nil_of_left_ne_nil Nat.toDigits_ne_nil _
    · intro c member
      rw [List.append_nil, List.mem_append, or_comm, ← List.mem_append] at member
      exact isDigit_of_mem_padded c member
    · rw [List.append_nil, ofDigits_append, ofDigits_zeros, ofDigits_toDigits, List.length_replicate,
        zpow_eq_div 10 e, Int.toNat_of_nonpos (by omega : -e ≤ 0)]
      simp
  · have long : (-e).toNat < (List.replicate ((-e).toNat + 1 - (Nat.toDigits 10 d).length) '0'
        ++ Nat.toDigits 10 d).length := by
      rw [List.length_append, List.length_replicate]
      omega
    have point := denotes_point isDigit_of_mem_padded long rfl rfl
    rw [ofDigits_padded, Int.toNat_of_nonneg (by omega), Int.neg_neg] at point
    rw [String.toList_ofList]
    exact ⟨_, _, point⟩

/-! ## Where a scan stops -/

section

variable {p : Char → Bool} {cs : List Char}

theorem takeWhile_of_head? (stop : ∀ c ∈ cs.head?, p c = false) : cs.takeWhile p = [] := by
  cases cs with
  | nil => rfl
  | cons c cs => rw [List.takeWhile_cons, stop c rfl, if_neg Bool.false_ne_true]

theorem dropWhile_of_head? (stop : ∀ c ∈ cs.head?, p c = false) : cs.dropWhile p = cs := by
  cases cs with
  | nil => rfl
  | cons c cs => rw [List.dropWhile_cons, stop c rfl, if_neg Bool.false_ne_true]

end

/-! ## Readings -/

variable {cs whole fraction : List Char} {x : ℚ}

theorem Denotes.readDecimal?_eq (h : Denotes cs x whole fraction) :
    readDecimal? cs = some ⟨ofDigits (whole ++ fraction), -(fraction.length : ℤ)⟩ := by
  have wholeDigits : ∀ c ∈ whole, isDigit c = true :=
    fun c member => h.digits c (List.mem_append_left _ member)
  have fractionDigits : ∀ c ∈ fraction, isDigit c = true :=
    fun c member => h.digits c (List.mem_append_right _ member)
  unfold readDecimal?
  rw [h.text, List.takeWhile_append_of_pos wholeDigits, List.dropWhile_append_of_pos wholeDigits]
  cases fraction with
  | nil => simp [splitFraction, readExponent?, h.nonempty]
  | cons c cs =>
    have point : ∀ d ∈ ('.' :: c :: cs).head?, isDigit d = false := by rintro d ⟨⟩; rfl
    rw [List.isEmpty_cons, if_neg Bool.false_ne_true, takeWhile_of_head? point,
      dropWhile_of_head? point, List.append_nil, splitFraction,
      List.takeWhile_eq_self_iff.2 fractionDigits, List.dropWhile_eq_nil_iff.2 fractionDigits]
    simp [readExponent?]

/-- The reals that round to a finite double are neither too small nor too large. -/
theorem Interval.Holds.between {b : Binary} (finite : b.Finite) (inside : b.interval.Holds x) :
    (10 : ℚ) ^ (-1075 : ℤ) ≤ x ∧ x ≤ 10 ^ (1024 : ℤ) := by
  obtain ⟨low, high, -⟩ := inside.bounds
  have lows := Binary.interval_low finite.positive
  obtain ⟨positive, small, first, last, -⟩ := finite
  have least : (1 : ℚ) ≤ b.significand := mod_cast positive
  have most : (b.significand : ℚ) + 1 ≤ 2 ^ 53 := mod_cast small
  have unit : (2 : ℚ) ^ (-1074 : ℤ) ≤ 2 ^ b.exponent := zpow_le_zpow_right₀ one_le_two first
  have unit' : (2 : ℚ) ^ b.exponent ≤ 2 ^ (971 : ℤ) := zpow_le_zpow_right₀ one_le_two last
  have pos : (0 : ℚ) < 2 ^ b.exponent := by positivity
  have half : (1 / 2 : ℚ) ≤ b.interval.low / 4 := by
    rcases lows with ⟨-, -, low⟩ | ⟨-, low⟩ <;> rw [low] <;> linarith
  constructor
  · calc (10 : ℚ) ^ (-1075 : ℤ) ≤ 2 ^ (-1075 : ℤ) := by
          rw [zpow_neg, zpow_neg]
          exact inv_anti₀ (by positivity) (zpow_le_zpow_left₀ (by decide) (by norm_num) (by norm_num))
      _ = 1 / 2 * 2 ^ (-1074 : ℤ) := by
          rw [show (-1075 : ℤ) = -1 + -1074 by rfl, zpow_add₀ two_ne_zero]
          norm_num
      _ ≤ b.interval.low / 4 * 2 ^ b.exponent := mul_le_mul half unit (by positivity) (by linarith)
      _ ≤ x := low
  · calc x ≤ (b.significand + 1 / 2) * 2 ^ b.exponent := high
      _ ≤ 2 ^ 53 * 2 ^ (971 : ℤ) := mul_le_mul (by linarith) unit' pos.le (by positivity)
      _ = 2 ^ (1024 : ℤ) := by
          rw [← zpow_natCast, ← zpow_add₀ two_ne_zero]
          norm_num
      _ ≤ 10 ^ (1024 : ℤ) := zpow_le_zpow_left₀ (by decide) (by norm_num) (by norm_num)

/-- A decimal number in the interval of a double is read as the double. -/
theorem Decimal.toFloat_of_holds {b : Binary} (finite : b.Finite) {dec : Decimal}
    (inside : b.interval.Holds (dec.digits * 10 ^ dec.exponent)) :
    dec.toFloat = Float.ofBits (UInt64.ofNat b.bits) := by
  obtain ⟨low, high⟩ := inside.between finite
  obtain ⟨digits, e⟩ := dec
  dsimp only at *
  have grain : (0 : ℚ) < 10 ^ e := by positivity
  have positive : 0 < digits := by
    rcases Nat.eq_zero_or_pos digits with rfl | positive
    · rw [Nat.cast_zero, zero_mul] at low
      exact absurd low (not_le.2 (by positivity))
    · exact positive
  have leading : ((10 : ℚ) ^ (e + digitCount digits - 1) ≤ digits * 10 ^ e) ∧
      (digits : ℚ) * 10 ^ e < 10 ^ (e + digitCount digits) := by
    have count : 0 < digitCount digits := Nat.length_toDigits_pos
    have shift : e + digitCount digits - 1 = (digitCount digits - 1 : ℕ) + e := by omega
    rw [shift, add_comm e, zpow_add₀ (by norm_num), zpow_add₀ (by norm_num), zpow_natCast, zpow_natCast]
    exact ⟨mul_le_mul_of_nonneg_right (mod_cast digitCount_le positive) grain.le,
      mul_lt_mul_of_pos_right (mod_cast lt_digitCount digits) grain⟩
  have notSmall : -1075 < e + digitCount digits :=
    (zpow_lt_zpow_iff_right₀ (by norm_num)).1 (low.trans_lt leading.2)
  have notLarge : e + digitCount digits - 1 ≤ 1024 :=
    (zpow_le_zpow_iff_right₀ (by norm_num)).1 (leading.1.trans high)
  have rounded {num den : ℕ} (hnum : 0 < num) (hden : 0 < den)
      (same : (num : ℚ) / den = digits * 10 ^ e) :
      nearest num den = Float.ofBits (UInt64.ofNat b.bits) := by
    rw [nearest, nearestBits_of_holds finite hnum hden (same ▸ inside)]
  have ten (k : ℕ) : 0 < pow10 k := Nat.pow_pos (by decide)
  rw [toFloat]
  dsimp only
  rw [digitCount] at notSmall notLarge
  rw [if_neg, if_neg]
  split <;> rename_i sign
  · refine rounded (Nat.mul_pos positive (ten _)) Nat.one_pos ?_
    rw [zpow_eq_div 10 e, Int.toNat_of_nonpos (by omega : -e ≤ 0), Nat.cast_mul, cast_pow10]
    simp
  · refine rounded positive (ten _) ?_
    rw [zpow_eq_div 10 e, Int.toNat_of_nonpos (by omega : e ≤ 0), cast_pow10]
    simp [div_eq_mul_inv]
  · unfold exponentBound
    omega
  · rw [Bool.or_eq_true, decide_eq_true_iff, beq_iff_eq, exponentBound]
    omega

theorem Denotes.splitSign_eq (h : Denotes cs x whole fraction) : splitSign cs = (false, cs) := by
  rw [h.text]
  obtain ⟨c, whole, rfl⟩ := List.exists_cons_of_ne_nil h.nonempty
  have digit : isDigit c = true := h.digits c (by simp)
  rw [List.cons_append]
  unfold splitSign
  split
  · rename_i same
    rw [(List.cons.inj same).1] at digit
    cases digit
  · rename_i same
    rw [(List.cons.inj same).1] at digit
    cases digit
  · rfl

/-- The float that a text of digits is read as. -/
theorem Denotes.readFloat?_eq (h : Denotes cs x whole fraction) :
    readFloat? cs = some (Decimal.toFloat ⟨ofDigits (whole ++ fraction), -(fraction.length : ℤ)⟩) := by
  unfold readFloat?
  rw [h.splitSign_eq]
  dsimp only
  rw [h.readDecimal?_eq]
  rfl

theorem readFloat?_minus (unsigned : splitSign cs = (false, cs)) :
    readFloat? ('-' :: cs) = (readFloat? cs).map (- ·) := by
  unfold readFloat?
  rw [unsigned, splitSign]
  simp

theorem Denotes.value_eq (h : Denotes cs x whole fraction) :
    (ofDigits (whole ++ fraction) : ℚ) * 10 ^ (-(fraction.length : ℤ)) = x := by
  rw [h.value, zpow_neg, zpow_natCast, mul_inv_cancel_right₀ (by positivity)]

/-- Digits in the interval of a double are read as the double. -/
theorem positional_of_contains {b : Binary} (finite : b.Finite) {d : ℕ} {e : ℤ}
    (inside : b.interval.contains d e = true) : ∃ x whole fraction,
      Denotes (positional d e).toList x whole fraction ∧
      readFloat? (positional d e).toList = some (Float.ofBits (UInt64.ofNat b.bits)) := by
  rw [Interval.contains_iff] at inside
  obtain ⟨whole, fraction, denotes⟩ := positional_denotes d e
  refine ⟨_, whole, fraction, denotes, ?_⟩
  rw [denotes.readFloat?_eq, Decimal.toFloat_of_holds finite]
  rwa [denotes.value_eq]

theorem denotes_zero : Denotes "0".toList 0 ['0'] [] where
  text := rfl
  nonempty := List.cons_ne_nil _ _
  digits c member := by
    rw [List.append_nil, List.mem_singleton] at member
    rw [member]
    rfl
  value := by
    rw [zero_mul]
    rfl

/-- The text of a float that is not negative. -/
theorem floatText_denotes {f : Float} (finite : f.isFinite = true) (positive : f.toBits.toNat < 2 ^ 63) :
    ∃ x whole fraction, Denotes (floatText f).toList x whole fraction ∧
      readFloat? (floatText f).toList = some f := by
  have magnitude : f.toBits.toNat % pow2 63 = f.toBits.toNat := Nat.mod_eq_of_lt positive
  have sign : f.toBits.toNat / pow2 63 = 0 := Nat.div_eq_of_lt positive
  have below := (magnitude_of_isFinite finite).1
  have same : Float.ofBits (UInt64.ofNat f.toBits.toNat) = f := by
    rw [UInt64.ofNat_toNat, Float.ofBits_toBits]
  change f.toBits.toNat % pow2 63 < _ at below
  rw [magnitude] at below
  unfold floatText
  dsimp only
  rw [sign, magnitude]
  generalize f.toBits.toNat = n at *
  rcases Nat.eq_zero_or_pos n with rfl | pos
  · refine ⟨_, _, _, denotes_zero, ?_⟩
    rw [← same]
    decide
  · rw [if_neg (by simp [pos.ne']), if_neg (by simp [below.ne]), if_neg (by omega)]
    obtain ⟨double, bits⟩ := Binary.finite_ofBits pos below
    have found := positional_of_contains double double.contains_shortest
    rw [bits, same] at found
    simpa using found

/-- The text of a float with a sign is a minus sign and the text of its magnitude. -/
theorem floatText_neg {f : Float} (finite : f.isFinite = true) (negative : 2 ^ 63 ≤ f.toBits.toNat) :
    (-f).toBits.toNat < 2 ^ 63 ∧ floatText f = "-" ++ floatText (-f) := by
  obtain ⟨below, positive | magnitude⟩ := magnitude_of_isFinite finite
  · omega
  have bound : f.toBits.toNat < 2 ^ 64 := f.toBits.toBitVec.isLt
  have small : (-f).toBits.toNat < 2 ^ 63 := by omega
  have sign : f.toBits.toNat / pow2 63 % 2 = 1 := by
    change f.toBits.toNat / 2 ^ 63 % 2 = 1
    omega
  have same : f.toBits.toNat % pow2 63 = (-f).toBits.toNat := by
    change f.toBits.toNat % 2 ^ 63 = _
    omega
  have sign' : (-f).toBits.toNat / pow2 63 = 0 := Nat.div_eq_of_lt small
  have same' : (-f).toBits.toNat % pow2 63 = (-f).toBits.toNat := Nat.mod_eq_of_lt small
  change f.toBits.toNat % pow2 63 < _ at below
  rw [same] at below
  refine ⟨small, ?_⟩
  unfold floatText
  dsimp only
  rw [sign, same, sign', same']
  simp only [if_neg (by omega : ¬infinityBits < (-f).toBits.toNat)]
  split_ifs <;> simp_all

/-- The shortest text of a finite float is read as the float. -/
theorem readFloat?_floatText {f : Float} (finite : f.isFinite = true) :
    readFloat? (floatText f).toList = some f := by
  rcases Nat.lt_or_ge f.toBits.toNat (2 ^ 63) with positive | negative
  · obtain ⟨_, _, _, -, read⟩ := floatText_denotes finite positive
    exact read
  · obtain ⟨small, text⟩ := floatText_neg finite negative
    obtain ⟨_, _, _, denotes, read⟩ := floatText_denotes (isFinite_neg finite) small
    have minus : (floatText f).toList = '-' :: (floatText (-f)).toList := by
      rw [text, String.toList_append]
      rfl
    rw [minus, readFloat?_minus denotes.splitSign_eq, read, Option.map_some, neg_neg]

/-! ## Texts tell floats apart -/

variable {f g : Float}

/-- The text of every float that is a number is read as the float. -/
theorem readFloat?_floatText_of_number (number : f.isNaN = false) :
    readFloat? (floatText f).toList = some f := by
  by_cases finite : f.isFinite = true
  · exact readFloat?_floatText finite
  -- an infinity has one of two patterns
  have top : magnitude f = infinityBits := by
    rw [isFinite_iff, not_lt] at finite
    rw [← Bool.not_eq_true, isNaN_iff, not_lt] at number
    omega
  have same : Float.ofBits (UInt64.ofNat f.toBits.toNat) = f := by
    rw [UInt64.ofNat_toNat, Float.ofBits_toBits]
  rw [← same]
  cases sign : signOf f with
  | positive =>
    rw [toBits_of_positive sign, top]
    decide
  | negative =>
    rw [toBits_of_negative sign, top]
    decide

theorem floatText_of_isNaN (h : f.isNaN = true) : floatText f = "NaN" := by
  rw [Float.isNaN_eq_decide_eq_nan, decide_eq_true_eq] at h
  rw [h]
  decide

/-- A number shares its text with no other float. -/
theorem floatText_inj (number : f.isNaN = false) (same : floatText f = floatText g) : f = g := by
  have read := readFloat?_floatText_of_number number
  rw [same] at read
  cases other : g.isNaN with
  | false =>
    rw [readFloat?_floatText_of_number other] at read
    exact (Option.some.inj read).symm
  | true =>
    rw [floatText_of_isNaN other] at read
    have named : readFloat? "NaN".toList = some notANumber := by decide
    have strange : notANumber.isNaN = true := by decide
    rw [named, Option.some.injEq] at read
    rw [read, number] at strange
    cases strange

end TableQuery.Number
