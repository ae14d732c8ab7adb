import TableQuery.Proofs.Value.Exchange
import TableQuery.Proofs.Value.SortComparison

/-!
# Transitive comparisons

Less is transitive on values that are compared in one type, and on numbers, whether they are compared
as integers or as floats: rounding integers keeps their order. It is not transitive on values of
several kinds, since a numeral compares with a number by value and with a word letter by letter.
-/

namespace TableQuery

open Calendar Number

variable {clock : Clock} {op : CompareOp} {a b c : Value} {s : Value → Prop} {f g h : Float}
  {i j : Int64}

/-- Among the values of `s`, what is `op` to a value is `op` to all to which this value is. -/
def CompareOp.TransitiveOn (clock : Clock) (op : CompareOp) (s : Value → Prop) : Prop :=
  ∀ a b c, s a → s b → s c →
    a.test clock op b = .yes → b.test clock op c = .yes → a.test clock op c = .yes

/-! ## Comparisons -/

theorem Truth.holds_iff {t : Truth} : t.holds = true ↔ t = .yes := by
  cases t <;> decide

namespace Value

theorem test_greater_iff : a.test clock .greater b = .yes ↔ b.test clock .less a = .yes := by
  rw [← test_exchange clock .less b a]
  rfl

theorem test_less_iff : a.test clock .less b = .yes ↔ a.compare clock b = .less := by
  unfold test
  cases a.compare clock b <;> decide

theorem not_test_less_self (clock : Clock) (a : Value) : a.test clock .less a ≠ .yes := by
  rw [ne_eq, test_less_iff]
  intro less
  have swapped := swap_compare clock a a
  rw [less] at swapped
  cases swapped

theorem nonnull_of_test_less (h : a.test clock .less b = .yes) : a ≠ .null ∧ b ≠ .null := by
  rw [test_less_iff] at h
  constructor
  · rintro rfl
    cases h
  · rintro rfl
    cases a <;> cases h

end Value

theorem CompareOp.transitiveOn_greater_iff :
    CompareOp.greater.TransitiveOn clock s ↔ CompareOp.less.TransitiveOn clock s := by
  unfold TransitiveOn
  simp only [Value.test_greater_iff]
  exact ⟨fun h a b c ha hb hc ab bc => h c b a hc hb ha bc ab,
    fun h a b c ha hb hc ba cb => h c b a hc hb ha cb ba⟩

/-! ## In one type -/

namespace Value

theorem test_less_iff_of_commonType {type : CommonType}
    (common : commonType? clock a b = some type) :
    a.test clock .less b = .yes ↔ compareIn? clock type a b = some .less := by
  have compared := compare_eq_compareIn? clock a b
  rw [common, Option.elim_some] at compared
  rw [test_less_iff, ← compared, Option.some_inj]

theorem both_less_trans {α : Type} {f : α → α → Comparison}
    (trans : ∀ i j k, f i j = .less → f j k = .less → f i k = .less) {x y z : Option α}
    (hxy : both x y f = some .less) (hyz : both y z f = some .less) :
    both x z f = some .less := by
  cases x with
  | none => cases hxy
  | some i =>
    cases y with
    | none => cases hxy
    | some j =>
      cases z with
      | none => cases hyz
      | some k => exact congrArg some (trans i j k (Option.some.inj hxy) (Option.some.inj hyz))

theorem rank_lt_of_lt {f g : Float} (h : f < g) :
    f.isNaN = false ∧ g.isNaN = false ∧ rank f < rank g := by
  have hf : f.isNaN = false := by
    rw [← Bool.not_eq_true]
    exact fun undecided => not_lt_of_isNaN (.inl undecided) h
  have hg : g.isNaN = false := by
    rw [← Bool.not_eq_true]
    exact fun undecided => not_lt_of_isNaN (.inr undecided) h
  exact ⟨hf, hg, (lt_iff_rank hf hg).mp h⟩

/-- In one type less is transitive. -/
theorem compareIn?_less_trans {type : CommonType} (hab : compareIn? clock type a b = some .less)
    (hbc : compareIn? clock type b c = some .less) : compareIn? clock type a c = some .less := by
  cases type with
  | null => cases hab
  | integer =>
    refine both_less_trans (fun i j k hij hjk => ?_) hab hbc
    rw [Comparison.ofIntegers_eq_less_iff] at hij hjk ⊢
    exact Int64.lt_trans hij hjk
  | number =>
    refine both_less_trans (fun f g h hfg hgh => ?_) hab hbc
    rw [Comparison.ofFloats_eq_less_iff] at hfg hgh ⊢
    obtain ⟨numberF, -, first⟩ := rank_lt_of_lt hfg
    obtain ⟨-, numberH, second⟩ := rank_lt_of_lt hgh
    exact (lt_iff_rank numberF numberH).mpr (first.trans second)
  | moment =>
    refine both_less_trans (fun m n o hmn hno => ?_) hab hbc
    rw [Comparison.ofMoments_eq_less_iff] at hmn hno ⊢
    simp only [Moment.before, Bool.or_eq_true, Bool.and_eq_true, decide_eq_true_eq,
      beq_iff_eq] at hmn hno ⊢
    omega
  | boolean =>
    refine both_less_trans (fun t u _ htu _ => ?_) hab hbc
    cases t <;> cases u <;> cases htu
  | text =>
    cases a with
    | text t =>
      cases b with
      | text u =>
        cases c with
        | text v =>
          refine congrArg some (Comparison.ofTexts_eq_less_iff.mpr ?_)
          exact lt_trans (Comparison.ofTexts_eq_less_iff.mp (Option.some.inj hab))
            (Comparison.ofTexts_eq_less_iff.mp (Option.some.inj hbc))
        | _ => cases hbc
      | _ => cases hab
    | _ => cases hab

end Value

theorem CompareOp.transitiveOn_of_commonType {type : CommonType}
    (h : ∀ a b, s a → s b → a = .null ∨ b = .null ∨ Value.commonType? clock a b = some type) :
    CompareOp.less.TransitiveOn clock s := by
  intro a b c ha hb hc hab hbc
  have first := Value.nonnull_of_test_less hab
  have second := Value.nonnull_of_test_less hbc
  have ab := ((h a b ha hb).resolve_left first.1).resolve_left first.2
  have bc := ((h b c hb hc).resolve_left second.1).resolve_left second.2
  have ac := ((h a c ha hc).resolve_left first.1).resolve_left second.2
  rw [Value.test_less_iff_of_commonType ab] at hab
  rw [Value.test_less_iff_of_commonType bc] at hbc
  exact (Value.test_less_iff_of_commonType ac).mpr (Value.compareIn?_less_trans hab hbc)

/-! ## Numbers -/

namespace Value

theorem test_less_of_integers_iff (ha : a.toInteger? = some i) (hb : b.toInteger? = some j) :
    a.test clock .less b = .yes ↔ i < j := by
  rw [test_less_iff_of_commonType (commonType?_of_integers ha hb), compareIn?, ha, hb]
  exact Option.some_inj.trans Comparison.ofIntegers_eq_less_iff

theorem commonType?_of_numbers (fraction : a.toInteger? = none ∨ b.toInteger? = none)
    (ha : a.toFloat? = some f) (hb : b.toFloat? = some g) :
    commonType? clock a b = some .number := by
  obtain fraction | fraction := fraction
  · exact commonType?_of_floats fraction ha hb
  · rw [commonType?_comm]
    exact commonType?_of_floats fraction hb ha

theorem test_less_of_floats_iff (fraction : a.toInteger? = none ∨ b.toInteger? = none)
    (ha : a.toFloat? = some f) (hb : b.toFloat? = some g) :
    a.test clock .less b = .yes ↔ f < g := by
  rw [test_less_iff_of_commonType (commonType?_of_numbers fraction ha hb), compareIn?, ha, hb]
  exact Option.some_inj.trans Comparison.ofFloats_eq_less_iff

/-- The float of an integer is a rounded one. -/
theorem rank_of_toInteger? (hi : a.toInteger? = some i) (ha : a.toFloat? = some f) :
    f.isNaN = false ∧ rank f = rank (rounded i.toInt) := by
  obtain ⟨g, hg, same⟩ := toFloat?_of_toInteger? hi
  cases ha.symm.trans hg
  rw [rank_ofInt] at same
  exact ⟨isNaN_of_rank same (isNaN_rounded _), same⟩

/-- A number that is less denotes a float that is not greater, and one that is less unless both
denote integers. -/
theorem rank_of_test_less (ha : a.toFloat? = some f) (hb : b.toFloat? = some g)
    (less : a.test clock .less b = .yes) : f.isNaN = false ∧ g.isNaN = false ∧
      rank f ≤ rank g ∧ (a.toInteger? = none ∨ b.toInteger? = none → rank f < rank g) := by
  cases hi : a.toInteger? with
  | none =>
    rw [test_less_of_floats_iff (.inl hi) ha hb] at less
    obtain ⟨numberF, numberG, ranks⟩ := rank_lt_of_lt less
    exact ⟨numberF, numberG, ranks.le, fun _ => ranks⟩
  | some i =>
    cases hj : b.toInteger? with
    | none =>
      rw [test_less_of_floats_iff (.inr hj) ha hb] at less
      obtain ⟨numberF, numberG, ranks⟩ := rank_lt_of_lt less
      exact ⟨numberF, numberG, ranks.le, fun _ => ranks⟩
    | some j =>
      rw [test_less_of_integers_iff hi hj] at less
      obtain ⟨numberF, placeF⟩ := rank_of_toInteger? hi ha
      obtain ⟨numberG, placeG⟩ := rank_of_toInteger? hj hb
      refine ⟨numberF, numberG, ?_, fun fraction => by simp at fraction⟩
      rw [placeF, placeG]
      exact rank_rounded_mono (by exact_mod_cast (Int64.lt_iff_toInt_lt.mp less).le)

end Value

/-- Integers are compared exactly and rounded beside floats, which keeps their order. -/
theorem CompareOp.transitiveOn_numbers (clock : Clock) :
    CompareOp.less.TransitiveOn clock fun v => v = .null ∨ v.toFloat?.isSome := by
  intro a b c ha hb hc hab hbc
  have first := Value.nonnull_of_test_less hab
  have second := Value.nonnull_of_test_less hbc
  obtain ⟨f, hf⟩ := Option.isSome_iff_exists.mp (ha.resolve_left first.1)
  obtain ⟨g, hg⟩ := Option.isSome_iff_exists.mp (hb.resolve_left first.2)
  obtain ⟨h, hh⟩ := Option.isSome_iff_exists.mp (hc.resolve_left second.2)
  obtain ⟨numberF, -, le, lt⟩ := Value.rank_of_test_less hf hg hab
  obtain ⟨-, numberH, le', lt'⟩ := Value.rank_of_test_less hg hh hbc
  by_cases fraction : a.toInteger? = none ∨ c.toInteger? = none
  · -- one of the two comparisons is one of floats
    rw [Value.test_less_of_floats_iff fraction hf hh, lt_iff_rank numberF numberH]
    obtain fraction | fraction := fraction
    · exact (lt (.inl fraction)).trans_le le'
    · exact le.trans_lt (lt' (.inr fraction))
  · rw [not_or, ← ne_eq, ← ne_eq, Option.ne_none_iff_exists', Option.ne_none_iff_exists'] at fraction
    obtain ⟨⟨i, hi⟩, ⟨k, hk⟩⟩ := fraction
    rw [Value.test_less_of_integers_iff hi hk]
    cases hj : b.toInteger? with
    | some j =>
      rw [Value.test_less_of_integers_iff hi hj] at hab
      rw [Value.test_less_of_integers_iff hj hk] at hbc
      exact Int64.lt_trans hab hbc
    | none =>
      -- a float between them keeps the integers apart
      have apart : rank f < rank h := (lt (.inr hj)).trans_le le'
      rw [(Value.rank_of_toInteger? hi hf).2, (Value.rank_of_toInteger? hk hh).2] at apart
      rw [Int64.lt_iff_toInt_lt]
      by_contra! more
      exact absurd (rank_rounded_mono (by exact_mod_cast more)) apart.not_ge

end TableQuery
