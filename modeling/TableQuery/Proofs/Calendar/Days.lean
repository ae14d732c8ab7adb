import Mathlib.Algebra.BigOperators.Group.List.Basic
import Mathlib.Algebra.Order.Ring.Nat
import TableQuery.Calendar.Date

/-!
# The date of a day

Every day lies in the year that is computed for it, and in the month that a walk through the lengths
of the months finds. So the date that is written for a day denotes that day again.
-/

namespace TableQuery.Calendar

/-! ## Years -/

theorem yearStart_succ (y : Int) : yearStart (y + 1) = yearStart y + daysInYear y := by
  unfold yearStart daysInYear isLeapYear
  simp only [Bool.and_eq_true, Bool.or_eq_true, beq_iff_eq, bne_iff_ne]
  split <;> omega

/-- A year starts less than two days from where years of one mean length would put it. -/
theorem yearStart_near (y : Int) : 146097 * (y - 1970) - 506 ≤ 400 * yearStart y ∧
    400 * yearStart y ≤ 146097 * (y - 1970) + 589 := by
  dsimp only [yearStart]
  omega

/-- Every day lies in its year. -/
theorem yearOf_contains (n : Int) : yearStart (yearOf n) ≤ n ∧ n < yearStart (yearOf n + 1) := by
  unfold yearOf
  dsimp only
  generalize estimate : 1970 + n * 400 / 146097 = y
  split <;> rename_i first
  · have low := yearStart_near (y - 1)
    rw [Int.sub_add_cancel]
    omega
  · split <;> rename_i last
    · have high := yearStart_near (y + 1 + 1)
      omega
    · omega

/-- A day has a place in its year. -/
theorem ordinalOf_spec (n : Int) : yearStart (yearOf n) + ordinalOf n - 1 = n ∧
    1 ≤ ordinalOf n ∧ ordinalOf n ≤ daysInYear (yearOf n) := by
  obtain ⟨first, last⟩ := yearOf_contains n
  rw [yearStart_succ] at last
  unfold ordinalOf
  omega

/-! ## Months -/

theorem length_monthLengths (y : Int) : (monthLengths y).length = 12 :=
  rfl

theorem sum_monthLengths (y : Int) : (monthLengths y).sum = daysInYear y := by
  unfold monthLengths daysInYear
  split <;> rfl

theorem monthLengths_le {y : Int} {length : Nat} (h : length ∈ monthLengths y) : length ≤ 31 := by
  unfold monthLengths at h
  split at h <;> simp at h <;> omega

/-- The walk ends in the month that contains the day. -/
theorem monthWithin_spec (lengths : List Nat) (month left : Nat) (inside : left < lengths.sum) :
    ∃ i length, lengths[i]? = some length ∧ (lengths.take i).sum ≤ left ∧
      left < (lengths.take i).sum + length ∧
      monthWithin lengths month left = (month + i, left - (lengths.take i).sum + 1) := by
  induction lengths generalizing month left with
  | nil => cases inside
  | cons length rest ih =>
    rw [monthWithin]
    split <;> rename_i first
    · exact ⟨0, length, rfl, Nat.zero_le _, by simpa using first, rfl⟩
    · rw [List.sum_cons] at inside
      obtain ⟨i, length', found, low, high, walk⟩ :=
        ih (month + 1) (left - length) (by omega)
      refine ⟨i + 1, length', found, ?_, ?_, ?_⟩
      · rw [List.take_succ_cons, List.sum_cons]
        omega
      · rw [List.take_succ_cons, List.sum_cons]
        omega
      · rw [walk, List.take_succ_cons, List.sum_cons, Nat.sub_sub]
        congr 1
        omega

/-- The month and the day of the month of a day, the month counted from 0. -/
theorem monthDayOf_spec (n : Int) : ∃ i length, (monthLengths (yearOf n))[i]? = some length ∧
    (monthDayOf n).1 = i + 1 ∧ 1 ≤ (monthDayOf n).2 ∧ (monthDayOf n).2 ≤ length ∧
    ordinalOf n = daysBefore (yearOf n) (i + 1) + (monthDayOf n).2 := by
  obtain ⟨-, first, last⟩ := ordinalOf_spec n
  have inside : ordinalOf n - 1 < (monthLengths (yearOf n)).sum := by
    rw [sum_monthLengths]
    omega
  obtain ⟨i, length, found, low, high, walk⟩ := monthWithin_spec _ 1 _ inside
  refine ⟨i, length, found, ?_⟩
  rw [monthDayOf, walk, daysBefore, ← List.sum_eq_foldl_nat, Nat.add_sub_cancel]
  dsimp only
  omega

theorem monthDayOf_bounds (n : Int) : 1 ≤ (monthDayOf n).1 ∧ (monthDayOf n).1 ≤ 12 ∧
    1 ≤ (monthDayOf n).2 ∧ (monthDayOf n).2 ≤ 31 := by
  obtain ⟨i, length, found, month, first, last, -⟩ := monthDayOf_spec n
  have inside := (List.getElem?_eq_some_iff.1 found).1
  rw [length_monthLengths] at inside
  have most := monthLengths_le (List.mem_of_getElem? found)
  omega

/-- The date of a day denotes the day. -/
theorem ofYearMonthDay?_monthDayOf (n : Int) :
    ofYearMonthDay? (yearOf n) (monthDayOf n).1 (monthDayOf n).2 = some n := by
  obtain ⟨i, length, found, month, first, last, place⟩ := monthDayOf_spec n
  have start := (ordinalOf_spec n).1
  rw [month, ofYearMonthDay?.eq_def, Nat.add_sub_cancel, found]
  simp [first, last]
  omega

end TableQuery.Calendar
