import Mathlib

/-!
# The order of floats

Floats that are numbers stand in one line, with both zeros at one place. A float that is not a
number stands nowhere in it: it is neither less nor greater than any other.
-/

namespace TableQuery.Number

open Float.Model Float.Model.UnpackedFloat

/-! ## Decoded floats -/

/-- The place of a decoded float in the line: the infinities at the ends, negative numbers before
the zeros, and numbers of one sign by exponent and mantissa. -/
def placeOf : UnpackedFloat → ℤ ×ₗ ℤ ×ₗ ℤ
  | .infinity .negative => toLex (-2, toLex (0, 0))
  | .finite .negative m e _ => toLex (-1, toLex (-e, -m))
  | .zero _ | .notANumber => toLex (0, toLex (0, 0))
  | .finite .positive m e _ => toLex (1, toLex (e, m))
  | .infinity .positive => toLex (2, toLex (0, 0))

theorem compare_signs : compare Sign.negative .positive = .lt ∧ compare Sign.positive .negative = .gt
    ∧ ∀ s : Sign, compare s s = .eq :=
  ⟨rfl, rfl, fun s => by cases s <;> rfl⟩

theorem then_compare_eq_lt (e f : Int) (m n : Nat) :
    (compare e f).then (compare m n) = .lt ↔ e < f ∨ e = f ∧ m < n := by
  rw [Ordering.then_eq_lt, Int.compare_eq_lt, Int.compare_eq_eq, Nat.compare_eq_lt]

theorem then_compare_eq_gt (e f : Int) (m n : Nat) :
    (compare e f).then (compare m n) = .gt ↔ f < e ∨ e = f ∧ n < m := by
  rw [Ordering.then_eq_gt, Int.compare_eq_gt, Int.compare_eq_eq, Nat.compare_eq_gt]

section

variable {a b : UnpackedFloat}

theorem compare_eq_lt_iff (ha : a ≠ .notANumber) (hb : b ≠ .notANumber) :
    a.compare b = some .lt ↔ placeOf a < placeOf b := by
  rcases a with (_ | _) | _ | _ | ⟨_ | _, m, e, _⟩ <;>
    rcases b with (_ | _) | _ | _ | ⟨_ | _, n, f, _⟩ <;>
    simp_all [placeOf, UnpackedFloat.compare, Prod.Lex.toLex_lt_toLex, compare_signs,
      then_compare_eq_lt, then_compare_eq_gt, @eq_comm Int]

theorem compare_eq_eq_iff (ha : a ≠ .notANumber) (hb : b ≠ .notANumber) :
    a.compare b = some .eq ↔ placeOf a = placeOf b := by
  rcases a with (_ | _) | _ | _ | ⟨_ | _, m, e, _⟩ <;>
    rcases b with (_ | _) | _ | _ | ⟨_ | _, n, f, _⟩ <;>
    simp_all [placeOf, UnpackedFloat.compare, compare_signs]

theorem compare_notANumber (h : a = .notANumber ∨ b = .notANumber) : a.compare b = none := by
  obtain rfl | rfl := h
  · rfl
  · cases a <;> rfl

end

/-! ## Floats -/

/-- The place of a float in the line. -/
def place (f : Float) : ℤ ×ₗ ℤ ×ₗ ℤ :=
  placeOf f.toModel.unpack

theorem isNaN_eq_false_iff (f : Float) : f.isNaN = false ↔ f.toModel.unpack ≠ .notANumber := by
  show f.toModel.unpack.isNaN = false ↔ _
  cases f.toModel.unpack <;> simp [UnpackedFloat.isNaN]

variable {f g : Float}

theorem lt_iff_place (hf : f.isNaN = false) (hg : g.isNaN = false) :
    f < g ↔ place f < place g := by
  rw [isNaN_eq_false_iff] at hf hg
  show decide (f.toModel < g.toModel) = true ↔ _
  rw [decide_eq_true_iff]
  exact beq_iff_eq.trans (compare_eq_lt_iff hf hg)

theorem not_lt_of_isNaN (h : f.isNaN = true ∨ g.isNaN = true) : ¬ f < g := by
  have decoded : f.toModel.unpack = .notANumber ∨ g.toModel.unpack = .notANumber := by
    simpa only [← Bool.not_eq_false, isNaN_eq_false_iff, not_not] using h
  show ¬ decide (f.toModel < g.toModel) = true
  rw [decide_eq_true_iff]
  show ¬ (f.toModel.unpack.compare g.toModel.unpack == some .lt) = true
  rw [compare_notANumber decoded]
  decide

/-- Floats are equal if they are numbers at one place. -/
theorem beq_iff_place : f == g ↔ f.isNaN = false ∧ g.isNaN = false ∧ place f = place g := by
  rw [isNaN_eq_false_iff, isNaN_eq_false_iff]
  show (f.toModel.unpack.compare g.toModel.unpack == some .eq) = true ↔ _
  by_cases hf : f.toModel.unpack = .notANumber
  · rw [compare_notANumber (.inl hf)]
    simp [hf]
  by_cases hg : g.toModel.unpack = .notANumber
  · rw [compare_notANumber (.inr hg)]
    simp [hg]
  rw [beq_iff_eq, compare_eq_eq_iff hf hg]
  exact ⟨fun h => ⟨hf, hg, h⟩, fun h => h.2.2⟩

theorem beq_comm (f g : Float) : (f == g) = (g == f) := by
  show (f.toModel.unpack.compare g.toModel.unpack == some .eq) =
    (g.toModel.unpack.compare f.toModel.unpack == some .eq)
  by_cases hf : f.toModel.unpack = .notANumber
  · rw [compare_notANumber (.inl hf), compare_notANumber (.inr hf)]
  by_cases hg : g.toModel.unpack = .notANumber
  · rw [compare_notANumber (.inr hg), compare_notANumber (.inl hg)]
  rw [Bool.eq_iff_iff, beq_iff_eq, beq_iff_eq, compare_eq_eq_iff hf hg, compare_eq_eq_iff hg hf,
    eq_comm]

theorem not_lt_of_lt (h : f < g) : ¬ g < f := by
  by_cases hf : f.isNaN = true
  · exact not_lt_of_isNaN (.inr hf)
  by_cases hg : g.isNaN = true
  · exact not_lt_of_isNaN (.inl hg)
  rw [Bool.not_eq_true] at hf hg
  rw [lt_iff_place hf hg] at h
  rw [lt_iff_place hg hf]
  exact h.asymm

end TableQuery.Number
