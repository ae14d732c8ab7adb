import TableQuery.Proofs.Calendar.Range
import TableQuery.Proofs.Number.Arithmetic
import TableQuery.Value.Basic

/-!
# Moments as numbers of seconds

A moment is a double for the sort order, and a double is a moment for the comparison operators. Both
conversions round, the one to the nearest double and the other to nanoseconds, but neither of them
ever turns the order of a moment and a double around.
-/

namespace TableQuery

open Calendar Number

variable {clock : Clock} {f : Float} {m n : Moment} {i : ℤ} {nano : ℕ} {x : ℚ}

/-! ## Fractions of a second -/

/-- A fraction is rounded to one that differs by less than a last place. -/
theorem value_of_fraction (same : rank f = rank (rounded x)) (low : 0 ≤ x) (high : x < 1) :
    f.isFinite = true ∧ 0 ≤ value f ∧ value f ≤ 1 ∧ x - 1 / 2 ^ 52 ≤ value f ∧
      value f ≤ x + 1 / 2 ^ 52 := by
  have finite : f.isFinite = true := isFinite_of_le_two_pow (by linarith) (by linarith) same
  have below : (⌊x * 2 ^ 52⌋₊ : ℚ) ≤ x * 2 ^ 52 := Nat.floor_le (by positivity)
  have above : x * 2 ^ 52 < ⌊x * 2 ^ 52⌋₊ + 1 := Nat.lt_floor_add_one _
  have short : ⌊x * 2 ^ 52⌋₊ < 2 ^ 52 := (Nat.floor_lt (by positivity)).2 (by
    push_cast
    linarith)
  -- the multiples of the last place around `x` are floats, so that rounding stays between them
  generalize ⌊x * 2 ^ 52⌋₊ = k at *
  obtain ⟨g, hg, floor⟩ := @exists_value k (-52) (by omega) (by decide) (by decide)
  obtain ⟨g', hg', ceil⟩ := @exists_value (k + 1) (-52) (by omega) (by decide) (by decide)
  have unit : (2 : ℚ) ^ (-52 : ℤ) = 1 / 2 ^ 52 := by norm_num
  rw [unit] at floor ceil
  have lower := le_value_of_rounded finite hg same (by linarith)
  have upper := value_le_of_rounded finite hg' same (by
    rw [ceil]
    push_cast
    linarith)
  have whole : (k : ℚ) + 1 ≤ 2 ^ 52 := by exact_mod_cast short
  have least : (0 : ℚ) ≤ k := k.cast_nonneg
  rw [floor] at lower
  rw [ceil] at upper
  push_cast at upper
  refine ⟨finite, ?_, ?_, ?_, ?_⟩ <;> linarith

/-- A number of nanoseconds as a fraction of a second. -/
def fraction (nano : ℕ) : Float :=
  Float.ofNat nano / 1e9

theorem value_billion : (1e9 : Float).isFinite = true ∧ value 1e9 = 10 ^ 9 := by
  have parts : ratio 1e9 = (10 ^ 9 * 2 ^ 23, 2 ^ 23) := by decide
  refine ⟨by decide, ?_⟩
  rw [value, parts]
  norm_num

theorem rank_fraction (small : nano < 10 ^ 9) :
    rank (fraction nano) = rank (rounded (nano / 10 ^ 9)) := by
  obtain ⟨finite, whole⟩ := @value_ofNat nano (by omega)
  obtain ⟨finite', billion⟩ := value_billion
  rw [fraction, rank_div finite finite' (by rw [billion]; norm_num), whole, billion]

theorem value_fraction (small : nano < 10 ^ 9) : (fraction nano).isFinite = true ∧
    0 ≤ value (fraction nano) ∧ value (fraction nano) ≤ 1 ∧
    nano - 1 / 4 ≤ value (fraction nano) * 10 ^ 9 ∧
    value (fraction nano) * 10 ^ 9 ≤ nano + 1 / 4 := by
  have positive : (0 : ℚ) ≤ nano := nano.cast_nonneg
  have below : (nano : ℚ) / 10 ^ 9 < 1 := by
    rw [div_lt_one (by norm_num)]
    exact_mod_cast small
  obtain ⟨finite, least, most, low, high⟩ :=
    value_of_fraction (rank_fraction small) (by positivity) below
  exact ⟨finite, least, most, by linarith, by linarith⟩

/-! ## Doubles as moments -/

/-- A double as a moment: the fraction of a second is computed in doubles and rounded to
nanoseconds. -/
theorem momentOfFloat?_eq_some (h : momentOfFloat? clock f = some n) :
    f.isFinite = true ∧ n.InRange ∧ n.second = ⌊value f⌋ ∧ ∃ d p : Float,
      d.isFinite = true ∧ rank d = rank (rounded (value f - n.second)) ∧
      p.isFinite = true ∧ rank p = rank (rounded (value d * 10 ^ 9)) ∧
      n.nano = min ⌊value p + 1 / 2⌋.toNat 999999999 := by
  unfold momentOfFloat? at h
  split at h
  · rename_i finite
    obtain ⟨range, second, nano⟩ := Clock.ofSeconds?_eq_some h
    rw [wholePart_eq] at second nano
    rw [nearestWhole_eq, ← second] at nano
    obtain ⟨finite', whole⟩ := value_ofInt range.natAbs_lt
    obtain ⟨billion, size⟩ := value_billion
    have rest : rank (f - Float.ofInt n.second) = rank (rounded (value f - n.second)) := by
      rw [rank_sub finite finite', whole]
    have low := Int.floor_le (value f)
    have high := Int.lt_floor_add_one (value f)
    rw [← second] at low high
    obtain ⟨hd, least, most, -⟩ := value_of_fraction rest (by linarith) (by linarith)
    have scaled := rank_mul hd billion
    rw [size] at scaled
    have hp : Float.isFinite _ = true :=
      isFinite_of_le_two_pow (by linarith) (by linarith) scaled
    exact ⟨finite, range, second, _, _, hd, rest, hp, scaled, nano⟩
  · cases h

theorem exists_quarters {k : ℕ} (short : k < 2 ^ 53) :
    ∃ g : Float, g.isFinite = true ∧ value g = k / 4 := by
  have unit : (2 : ℚ) ^ (-2 : ℤ) = 1 / 4 := by norm_num
  obtain ⟨g, finite, exact⟩ := @exists_value k (-2) short (by decide) (by decide)
  exact ⟨g, finite, by rw [exact, unit, mul_one_div]⟩

/-- If the moment of a double has more nanoseconds, the double has the larger fraction. -/
theorem fraction_le_of_lt (h : momentOfFloat? clock f = some n) (small : nano < 10 ^ 9)
    (less : nano < n.nano) : value (fraction nano) ≤ value f - n.second := by
  obtain ⟨-, -, -, d, p, hd, rest, hp, scaled, rounded⟩ := momentOfFloat?_eq_some h
  obtain ⟨finite, -, -, -, high⟩ := value_fraction small
  by_contra above
  -- below the fraction the product is at most a quarter above `nano`, which is rounded to it
  obtain ⟨g, hg, quarter⟩ := @exists_quarters (4 * nano + 1) (by omega)
  have below := value_le_of_rounded hd finite rest (not_le.1 above).le
  have product := value_le_of_rounded hp hg scaled (by
    rw [quarter]
    push_cast
    linarith)
  rw [quarter] at product
  push_cast at product
  have most : ⌊value p + 1 / 2⌋ ≤ nano := by
    rw [Int.floor_le_iff]
    push_cast
    linarith
  omega

theorem le_fraction_of_lt (h : momentOfFloat? clock f = some n) (small : nano < 10 ^ 9)
    (greater : n.nano < nano) : value f - n.second ≤ value (fraction nano) := by
  obtain ⟨-, -, -, d, p, hd, rest, hp, scaled, rounded⟩ := momentOfFloat?_eq_some h
  obtain ⟨finite, -, -, low, -⟩ := value_fraction small
  by_contra above
  obtain ⟨g, hg, quarter⟩ := @exists_quarters (4 * nano - 1) (by omega)
  have exact : ((4 * nano - 1 : ℕ) : ℚ) = 4 * nano - 1 := by
    rw [Nat.cast_sub (by omega)]
    push_cast
    rfl
  have below := le_value_of_rounded hd finite rest (not_le.1 above).le
  have product := le_value_of_rounded hp hg scaled (by
    rw [quarter, exact]
    linarith)
  rw [quarter, exact] at product
  have least : nano ≤ ⌊value p + 1 / 2⌋ := by
    rw [Int.le_floor]
    push_cast
    linarith
  omega

/-- A whole double has no nanoseconds. -/
theorem nano_of_whole (h : momentOfFloat? clock f = some n) (whole : value f = n.second) :
    n.nano = 0 := by
  obtain ⟨-, -, -, d, p, -, rest, -, scaled, rounded⟩ := momentOfFloat?_eq_some h
  have none : ((0 : ℤ) : ℚ) = 0 := Int.cast_zero
  rw [whole, sub_self, ← none] at rest
  rw [(value_of_rounded_int (by decide) rest).2, none, zero_mul, ← none] at scaled
  rw [(value_of_rounded_int (by decide) scaled).2] at rounded
  rw [rounded]
  norm_num

/-! ## Moments and doubles in one order -/

/-- A moment whose second is the whole part of a double and whose nanoseconds are near its fraction:
they are on the same side of every other number of nanoseconds. -/
structure Calendar.Moment.Near (n : Moment) (f : Float) : Prop where
  finite : f.isFinite = true
  second : n.second = ⌊value f⌋
  above : ∀ {nano : ℕ}, nano < 10 ^ 9 → nano < n.nano →
    value (fraction nano) ≤ value f - n.second
  below : ∀ {nano : ℕ}, nano < 10 ^ 9 → n.nano < nano →
    value f - n.second ≤ value (fraction nano)
  whole : value f = n.second → n.nano = 0

theorem near_of_momentOfFloat? (h : momentOfFloat? clock f = some n) : n.Near f := by
  obtain ⟨finite, -, second, -⟩ := momentOfFloat?_eq_some h
  refine ⟨finite, second, fraction_le_of_lt h, le_fraction_of_lt h, nano_of_whole h⟩

theorem near_of_ofSeconds? (h : clock.ofSeconds? i 0 = some n) : n.Near (Float.ofInt i) := by
  obtain ⟨range, rfl, none⟩ := Clock.ofSeconds?_eq_some h
  obtain ⟨finite, whole⟩ := value_ofInt range.natAbs_lt
  refine ⟨finite, ?_, ?_, ?_, fun _ => none⟩
  · rw [whole, Int.floor_intCast]
  · intro nano _ less
    omega
  · intro nano small _
    rw [whole, sub_self]
    exact (value_fraction small).2.1

theorem rank_epoch (range : m.InRange) (small : m.nano < 10 ^ 9) : m.epoch.isFinite = true ∧
    rank m.epoch = rank (rounded (m.second + value (fraction m.nano))) := by
  obtain ⟨finite, whole⟩ := value_ofInt range.natAbs_lt
  obtain ⟨finite', least, most, -⟩ := value_fraction small
  have sum := rank_add finite finite'
  rw [whole] at sum
  have bound := range.natAbs_lt
  have low : (-2 ^ 53 : ℚ) ≤ m.second := by exact_mod_cast (by omega : -2 ^ 53 ≤ m.second)
  have high : (m.second : ℚ) + 1 ≤ 2 ^ 53 := by exact_mod_cast (by omega : m.second + 1 ≤ 2 ^ 53)
  exact ⟨isFinite_of_le_two_pow (by linarith) (by linarith) sum, sum⟩

theorem Calendar.Moment.before_iff : m.before n = true ↔
    m.second < n.second ∨ m.second = n.second ∧ m.nano < n.nano := by
  simp [before]

/-- A double is not below the epoch of a moment before its own. -/
theorem not_lt_epoch (range : m.InRange) (small : m.nano < 10 ^ 9) (near : n.Near f)
    (before : m.before n = true) : ¬ f < m.epoch := by
  obtain ⟨finite, epoch⟩ := rank_epoch range small
  obtain ⟨-, -, most, -⟩ := value_fraction small
  have whole : (n.second : ℚ) ≤ value f := near.second ▸ Int.floor_le _
  rw [lt_iff_value near.finite finite, not_lt]
  apply value_le_of_rounded finite near.finite epoch
  obtain earlier | ⟨same, less⟩ := Moment.before_iff.1 before
  · have next : (m.second : ℚ) + 1 ≤ n.second := by exact_mod_cast earlier
    linarith
  · have order := near.above small less
    rw [same]
    linarith

/-- A double is not above the epoch of a moment after its own. -/
theorem not_epoch_lt (range : m.InRange) (small : m.nano < 10 ^ 9) (near : n.Near f)
    (before : n.before m = true) : ¬ m.epoch < f := by
  obtain ⟨finite, epoch⟩ := rank_epoch range small
  obtain ⟨-, least, -⟩ := value_fraction small
  have whole : value f < n.second + 1 := near.second ▸ Int.lt_floor_add_one _
  rw [lt_iff_value finite near.finite, not_lt]
  apply le_value_of_rounded finite near.finite epoch
  obtain earlier | ⟨same, less⟩ := Moment.before_iff.1 before
  · have next : (n.second : ℚ) + 1 ≤ m.second := by exact_mod_cast earlier
    linarith
  · have order := near.below small less
    rw [← same]
    linarith

/-- A whole double is the epoch of its moment. -/
theorem rank_epoch_of_whole (range : m.InRange) (near : n.Near f) (exact : value f = n.second)
    (second : n.second = m.second) (nano : n.nano = m.nano) : rank m.epoch = rank f := by
  have none := near.whole exact
  rw [nano] at none
  have zero : value (fraction 0) = (0 : ℤ) := by
    refine (value_of_rounded_int (by decide) ?_).2
    rw [rank_fraction (by decide)]
    simp
  rw [(rank_epoch range (by omega)).2, none, zero, Int.cast_zero, add_zero, ← second, ← exact,
    rank_rounded_value near.finite]

end TableQuery
