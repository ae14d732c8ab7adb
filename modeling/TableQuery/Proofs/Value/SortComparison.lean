import TableQuery.Proofs.Value.NumberKeys

/-!
# The sort order and the comparison operators

Sort keys fix one form for each value, while `<` looks for the first type that both of its sides
have a counterpart in. A value that sorts before another one is also less in that type, or the type
has no order, with the reservations of numbers beside datetimes and of boolean words beside numerals.
-/

namespace TableQuery

open Calendar Number Text

variable {clock : Clock} {a b v : Value} {f g f' g' : Float} {i : Int64} {m n : Moment}
  {s t : String}

/-! ## The comparison in a common type -/

namespace Value

/-- The comparison of the counterparts in a type, if there are both. -/
def compareIn? (clock : Clock) : CommonType → Value → Value → Option Comparison
  | .null, _, _ => some .incommensurable
  | .integer, a, b => both a.toInteger? b.toInteger? Comparison.ofIntegers
  | .number, a, b => both a.toFloat? b.toFloat? Comparison.ofFloats
  | .moment, a, b => both (a.toMoment? clock) (b.toMoment? clock) Comparison.ofMoments
  | .boolean, a, b => both a.toBoolean? b.toBoolean? Comparison.ofBooleans
  | .text, a, b => compareTexts? a b

theorem isSome_compareIn? {type : CommonType} (value : type ≠ .null) :
    (compareIn? clock type a b).isSome = (a.hasType clock type && b.hasType clock type) := by
  cases type with
  | null => exact absurd rfl value
  | text => cases a <;> cases b <;> rfl
  | _ =>
    unfold compareIn? hasType
    rw [isSome_both]

theorem commonType?_comm (clock : Clock) (a b : Value) :
    commonType? clock a b = commonType? clock b a := by
  simp only [commonType?, Bool.and_comm]

theorem commonType?_null_left :
    commonType? clock null b = if b.isNull then some .null else none := by
  cases b <;> rfl

theorem commonType?_null_right :
    commonType? clock a null = if a.isNull then some .null else none := by
  rw [commonType?_comm, commonType?_null_left]

/-- Values are compared in their common type. -/
theorem compare_eq_compareIn? (clock : Clock) (a b : Value) : some (a.compare clock b) =
    (commonType? clock a b).elim (some .incommensurable) (compareIn? clock · a b) := by
  by_cases ha : a = null
  · subst ha
    rw [commonType?_null_left, compare_eq]
    cases b <;> rfl
  by_cases hb : b = null
  · subst hb
    rw [commonType?_null_right, compare_eq]
    cases a <;> rfl
  have nonnull : a.isNull = false ∧ b.isNull = false := by
    constructor
    · cases a <;> first | rfl | exact absurd rfl ha
    · cases b <;> first | rfl | exact absurd rfl hb
  have both : (a.hasType clock .null && b.hasType clock .null) = false := by
    rw [hasType, hasType, nonnull.1]
    rfl
  have types (type : CommonType) (value : type ≠ .null) := @isSome_compareIn? clock a b type value
  unfold commonType? CommonType.every
  simp only [List.find?_cons, both, ← types .integer (by decide), ← types .number (by decide),
    ← types .moment (by decide), ← types .boolean (by decide), ← types .text (by decide)]
  rw [compare_eq, nonnull.1, nonnull.2]
  cases integers : compareIn? clock .integer a b with
  | some c => simp_all [compareIn?]
  | none =>
    cases numbers : compareIn? clock .number a b with
    | some c => simp_all [compareIn?]
    | none =>
      cases moments : compareIn? clock .moment a b with
      | some c => simp_all [compareIn?]
      | none =>
        cases booleans : compareIn? clock .boolean a b with
        | some c => simp_all [compareIn?]
        | none => cases texts : compareIn? clock .text a b <;> simp_all [compareIn?]

/-- The counterparts of the values in their common type, and the types in which they have none. -/
theorem commonType?_eq_some {type : CommonType} (h : commonType? clock a b = some type) :
    (a.hasType clock type && b.hasType clock type) = true ∧
      ∀ other ∈ CommonType.every.takeWhile (· != type),
        (a.hasType clock other && b.hasType clock other) = false := by
  obtain ⟨found, before, after, split, skipped⟩ := List.find?_eq_some_iff_append.1 h
  have others : ∀ other ∈ before, (other != type) = true := by
    intro other member
    rw [bne_iff_ne]
    rintro rfl
    have skip := skipped other member
    rw [found] at skip
    cases skip
  refine ⟨found, fun other member => ?_⟩
  rw [split, List.takeWhile_append_of_pos others, List.takeWhile_cons_of_neg (by simp),
    List.append_nil] at member
  have skip := skipped other member
  rwa [Bool.not_eq_true'] at skip

theorem exists_of_isSome {α β : Type} {x : Option α} {y : Option β}
    (h : (x.isSome && y.isSome) = true) : ∃ s t, x = some s ∧ y = some t := by
  cases x <;> cases y <;> simp at h ⊢

end Value

/-! ## The keys of values -/

namespace SortKey

theorem ofValue_of_integer (h : v.toInteger? = some i) :
    ofValue clock v = integer i (v.toText?.elim (Value.integerText i) Value.fold) := by
  simp [ofValue, h]

theorem ofValue_of_float (none : v.toInteger? = none) (h : v.toFloat? = some f) :
    ofValue clock v = float f (v.toText?.elim (floatText f) Value.fold) := by
  simp [ofValue, none, h]

theorem ofValue_of_datetime (h : v.datetime? clock = some m) : ofValue clock v = moment m := by
  obtain ⟨number, found⟩ := Value.datetime?_eq_some h
  obtain ⟨integer, float⟩ := Value.numbers_of_isNumber number
  simp [ofValue, integer, float, found]

/-- The key of a number has its integer, and a float at the place of its float. -/
theorem ofValue_of_number (clock : Clock) (h : v.toFloat? = some f) : ∃ g, rank g = rank f ∧
    (ofValue clock v).integral? = v.toInteger? ∧ (ofValue clock v).seconds? = some g ∧
    ∀ m, ofValue clock v ≠ moment m := by
  cases integer : v.toInteger? with
  | some i =>
    obtain ⟨g, float, same⟩ := Value.toFloat?_of_toInteger? integer
    cases h.symm.trans float
    rw [ofValue_of_integer integer]
    exact ⟨_, same.symm, rfl, rfl, nofun⟩
  | none =>
    rw [ofValue_of_float integer h]
    exact ⟨f, rfl, rfl, rfl, nofun⟩

end SortKey

/-! ## Orders in a common type -/

theorem isNaN_congr (same : rank f = rank g) : f.isNaN = g.isNaN := by
  rw [Bool.eq_iff_iff, isNaN_iff_rank, isNaN_iff_rank, same]

theorem lt_iff_of_rank (hf : rank f = rank f') (hg : rank g = rank g') : f < g ↔ f' < g' := by
  by_cases strange : f.isNaN = true ∨ g.isNaN = true
  · have strange' := strange
    rw [isNaN_congr hf, isNaN_congr hg] at strange'
    exact iff_of_false (not_lt_of_isNaN strange) (not_lt_of_isNaN strange')
  · rw [not_or, Bool.not_eq_true, Bool.not_eq_true] at strange
    rw [lt_iff_rank strange.1 strange.2, lt_iff_rank (isNaN_congr hf ▸ strange.1)
      (isNaN_congr hg ▸ strange.2), hf, hg]

namespace SortKey

/-- Keys that are not both moments and not both integers compare as numbers of seconds. -/
theorem less_of_seconds {x y : SortKey} (other : ∀ m n, x = moment m → y ≠ moment n)
    (integers : Value.both x.integral? y.integral? Comparison.ofIntegers = none)
    (hx : x.seconds? = some f) (hy : y.seconds? = some g) : x.less y = .yes ↔ f < g := by
  rw [less_eq_yes_iff, compare_other other, integers, hx, hy]
  exact Comparison.ofFloats_eq_less_iff

theorem less_of_folded {x y : SortKey}
    (integers : Value.both x.integral? y.integral? Comparison.ofIntegers = none)
    (floats : Value.both x.seconds? y.seconds? Comparison.ofFloats = none) (hx : x.folded? = some s)
    (hy : y.folded? = some t) : x.less y = .yes ↔ s < t := by
  have other : ∀ m n, x = moment m → y ≠ moment n := by
    rintro m n rfl
    cases hx
  rw [less_eq_yes_iff, compare_other other, integers, floats, hx, hy]
  exact Comparison.ofTexts_eq_less_iff

end SortKey

namespace Value

theorem test_less_of_compareIn? {type : CommonType} (common : commonType? clock a b = some type)
    (less : compareIn? clock type a b = some .less) : a.test clock .less b = .yes := by
  have compared := compare_eq_compareIn? clock a b
  rw [common, Option.elim_some, less] at compared
  rw [test, Option.some.inj compared]
  rfl

/-- Integers that sort before others are less. -/
theorem test_less_of_integers (common : commonType? clock a b = some .integer)
    (less : (SortKey.ofValue clock a).less (SortKey.ofValue clock b) = .yes) :
    a.test clock .less b = .yes := by
  obtain ⟨types, -⟩ := commonType?_eq_some common
  obtain ⟨i, j, hi, hj⟩ := exists_of_isSome types
  rw [SortKey.ofValue_of_integer hi, SortKey.ofValue_of_integer hj] at less
  have order := (SortKey.less_integral rfl rfl).1 less
  apply test_less_of_compareIn? common
  rw [compareIn?, hi, hj]
  exact congrArg some (Comparison.ofIntegers_eq_less_iff.2 order)

/-- Numbers that sort before others are less, whether the keys are integers or floats. -/
theorem test_less_of_numbers (common : commonType? clock a b = some .number)
    (less : (SortKey.ofValue clock a).less (SortKey.ofValue clock b) = .yes) :
    a.test clock .less b = .yes := by
  obtain ⟨types, others⟩ := commonType?_eq_some common
  obtain ⟨f, g, hf, hg⟩ := exists_of_isSome types
  obtain ⟨f', sameF, integerF, secondsF, kind⟩ := SortKey.ofValue_of_number clock hf
  obtain ⟨g', sameG, integerG, secondsG, -⟩ := SortKey.ofValue_of_number clock hg
  have integers : both a.toInteger? b.toInteger? Comparison.ofIntegers = none := by
    rw [← Option.not_isSome_iff_eq_none, isSome_both, Bool.not_eq_true]
    exact others .integer (by decide)
  rw [← integerF, ← integerG] at integers
  rw [SortKey.less_of_seconds (fun m _ h => absurd h (kind m)) integers secondsF secondsG,
    lt_iff_of_rank sameF sameG] at less
  apply test_less_of_compareIn? common
  rw [compareIn?, hf, hg]
  exact congrArg some (Comparison.ofFloats_eq_less_iff.2 less)

/-! ## Moments -/

/-- A number and a datetime whose order as points in time is the order of their seconds. -/
structure Timed (clock : Clock) (x y : Value) : Prop where
  /-- No layout reads the number as a moment. -/
  counted : x.readByLayout? clock = none
  /-- They are not compared as texts. -/
  common : commonType? clock x y ≠ some .text
  /-- The datetime is in no leap second. -/
  regular : ∀ m, y.toMoment? clock = some m → m.nano < 10 ^ 9
  /-- A fraction is not rounded to the datetime. -/
  apart : x.toInteger? = none → ∀ m n, x.toMoment? clock = some n → y.toMoment? clock = some m →
    n.before m = true ∨ m.before n = true

theorem inCalendar_of_toFloat? (float : v.toFloat? = some f) : v.InCalendar := by
  cases v <;> trivial

/-- A number that is below the epoch of a datetime is before it, and after it if it is above. -/
theorem Timed.before {x y : Value} (timed : x.Timed clock y) (calendar : y.InCalendar)
    (float : x.toFloat? = some f) (hx : x.toMoment? clock = some n)
    (hy : y.toMoment? clock = some m) :
    (f < m.epoch → n.before m = true) ∧ (m.epoch < f → m.before n = true) := by
  have near := near_of_toMoment? timed.counted float hx
  have range := inRange_toMoment? calendar hy
  have small := timed.regular m hy
  have after := not_lt_epoch range small near
  have ahead := not_epoch_lt range small near
  by_cases first : n.before m = true
  · exact ⟨fun _ => first, fun above => absurd above (ahead first)⟩
  by_cases last : m.before n = true
  · exact ⟨fun below => absurd below (after last), fun _ => last⟩
  -- at one point in time the number is whole, and the epoch of the moment is that number
  have same : n.second = m.second ∧ n.nano = m.nano := by
    rw [Moment.before_iff] at first last
    omega
  cases integer : x.toInteger? with
  | none => exact absurd (timed.apart integer m n hx hy) (by simp [first, last])
  | some i =>
    obtain ⟨g, float', place⟩ := toFloat?_of_toInteger? integer
    cases float.symm.trans float'
    have short := (inRange_toMoment? (inCalendar_of_toFloat? float) hx).natAbs_lt
    rw [near.second] at short
    have whole := value_of_short near.finite (place.trans (rank_ofInt _)) short
    have floor := near.second
    rw [whole, Int.floor_intCast] at floor
    rw [← floor] at whole
    have equal := rank_epoch_of_whole range near whole same.1 same.2
    rw [lt_iff_of_rank rfl equal, lt_iff_of_rank equal rfl]
    have never : ¬ f < f := fun h => not_lt_of_lt h h
    exact ⟨fun h => absurd h never, fun h => absurd h never⟩

theorem isNumber_eq (v : Value) : v.isNumber = v.toFloat?.isSome := by
  rw [isNumber]
  cases strict : v.toIntegerStrictly? with
  | none => rfl
  | some i =>
    obtain ⟨f, float, -⟩ := toFloat?_of_toInteger? (toInteger?_of_strict strict)
    rw [float]
    rfl

theorem datetime?_of_toMoment? (number : v.isNumber = false) (h : v.toMoment? clock = some m) :
    v.datetime? clock = some m := by
  rw [datetime?, number]
  exact h

/-- Moments that sort before others are less, also where one of them is a number. -/
theorem test_less_of_moments (calendarA : a.InCalendar) (calendarB : b.InCalendar)
    (timedA : a.isNumber = true → (b.datetime? clock).isSome → a.Timed clock b)
    (timedB : b.isNumber = true → (a.datetime? clock).isSome → b.Timed clock a)
    (common : commonType? clock a b = some .moment)
    (less : (SortKey.ofValue clock a).less (SortKey.ofValue clock b) = .yes) :
    a.test clock .less b = .yes := by
  obtain ⟨types, others⟩ := commonType?_eq_some common
  obtain ⟨m, n, hm, hn⟩ := exists_of_isSome types
  have numbers := others .number (by decide)
  rw [hasType, hasType, ← isNumber_eq, ← isNumber_eq] at numbers
  suffices before : m.before n = true by
    apply test_less_of_compareIn? common
    rw [compareIn?, hm, hn]
    exact congrArg some (Comparison.ofMoments_eq_less_iff.2 before)
  cases ha : a.isNumber with
  | true =>
    rw [ha, Bool.true_and] at numbers
    have found := datetime?_of_toMoment? numbers hn
    have timed := timedA ha (by rw [found]; rfl)
    rw [isNumber_eq, Option.isSome_iff_exists] at ha
    obtain ⟨f, float⟩ := ha
    obtain ⟨f', same, -, seconds, kind⟩ := SortKey.ofValue_of_number clock float
    rw [SortKey.ofValue_of_datetime found, SortKey.less_of_seconds (fun m _ h => absurd h (kind m))
      (both_none _ _) seconds rfl, lt_iff_of_rank same rfl] at less
    exact (timed.before calendarB float hm hn).1 less
  | false =>
    have found := datetime?_of_toMoment? ha hm
    cases hb : b.isNumber with
    | true =>
      have timed := timedB hb (by rw [found]; rfl)
      rw [isNumber_eq, Option.isSome_iff_exists] at hb
      obtain ⟨g, float⟩ := hb
      obtain ⟨g', same, -, seconds, kind⟩ := SortKey.ofValue_of_number clock float
      rw [SortKey.ofValue_of_datetime found, SortKey.less_of_seconds (fun _ n _ => kind n) rfl rfl
        seconds, lt_iff_of_rank rfl same] at less
      exact (timed.before calendarA float hn hm).2 less
    | false =>
      rw [SortKey.ofValue_of_datetime found,
        SortKey.ofValue_of_datetime (datetime?_of_toMoment? hb hn)] at less
      exact SortKey.less_moment.1 less

/-! ## Texts -/

/-- The forms that the key of a text may have. -/
inductive TextKey (clock : Clock) (s : String) : SortKey → Prop where
  | number {k : SortKey} : (text s).isNumber = true → k.integral? = (text s).toInteger? →
      k.folded? = some (fold s) → TextKey clock s k
  | datetime {m : Moment} : (text s).datetime? clock = some m → TextKey clock s (.moment m)
  | word {t : Bool} : (text s).isNumber = false → (text s).toBoolean? = some t →
      TextKey clock s (.boolean t)
  | plain : TextKey clock s (.text (fold s))

theorem textKey_ofValue (clock : Clock) (s : String) :
    TextKey clock s (SortKey.ofValue clock (text s)) := by
  cases number : (text s).isNumber with
  | true =>
    cases integer : (text s).toInteger? with
    | some i =>
      rw [SortKey.ofValue_of_integer integer]
      exact .number number integer.symm rfl
    | none =>
      have float := number
      rw [isNumber_eq, Option.isSome_iff_exists] at float
      obtain ⟨f, float⟩ := float
      rw [SortKey.ofValue_of_float integer float]
      exact .number number integer.symm rfl
  | false =>
    cases moment : (text s).toMoment? clock with
    | some m =>
      have found := datetime?_of_toMoment? number moment
      rw [SortKey.ofValue_of_datetime found]
      exact .datetime found
    | none =>
      obtain ⟨integer, float⟩ := numbers_of_isNumber number
      cases boolean : (text s).toBoolean? with
      | some t =>
        have key : SortKey.ofValue clock (text s) = .boolean t := by
          simp [SortKey.ofValue, integer, float, moment, boolean]
        rw [key]
        exact .word number boolean
      | none =>
        have key : SortKey.ofValue clock (text s) = .text (fold s) := by
          simp [SortKey.ofValue, integer, float, moment, boolean]
        rw [key]
        exact .plain

/-- A text that looks numeric starts with a sign, a point or a digit. -/
theorem first_of_looksNumeric {cs : List Char} (h : looksNumeric cs = true) :
    ∃ c rest, cs = c :: rest ∧ c.toNat < 'F'.toNat := by
  cases cs with
  | nil => cases h
  | cons c rest =>
    refine ⟨c, rest, rfl, ?_⟩
    by_cases sign : c = '-' ∨ c = '+' ∨ c = '.'
    · rcases sign with rfl | rfl | rfl <;> decide
    · rw [not_or, not_or] at sign
      have unsigned : splitSign (c :: rest) = (false, c :: rest) := by
        unfold splitSign
        split <;> simp_all
      have digit : isDigit c = true := by
        rw [looksNumeric, unsigned] at h
        dsimp only at h
        split at h <;> simp_all
      rw [isDigit, Char.isDigit, Bool.and_eq_true, decide_eq_true_iff, decide_eq_true_iff] at digit
      have last : c.toNat ≤ '9'.toNat := digit.2
      exact last.trans_lt (by decide)

theorem upper_cons {s : String} {c : Char} {rest : List Char} (first : s.toList = c :: rest)
    (early : c.toNat < 'F'.toNat) :
    ∃ d rest', (upper s).toList = d :: rest' ∧ d.toNat < 'F'.toNat := by
  have small : 'F'.toNat = 70 := rfl
  have ascii : c.toNat < 128 := by omega
  refine ⟨c.toUpper, rest.flatMap upperChar, ?_, ?_⟩
  · rw [upper, String.toList_ofList, first, List.flatMap_cons, upperChar, if_pos ascii]
    rfl
  · unfold Char.toUpper
    split
    · rename_i lower
      have above : 'a'.toNat ≤ c.toNat := lower.1
      exact absurd (above.trans_lt early) (by decide)
    · exact early

/-- The words for truths that are no numbers, folded. -/
theorem fold_of_word (word : (text t).isNumber = false)
    (boolean : (text t).toBoolean?.isSome) : fold t ∈ ["T", "TRUE", "F", "FALSE"] := by
  have spelled {w : String} (digit : (text w).isNumber = true)
      (alone : trimChars w.toList = w.toList) : trim t ≠ w := by
    rintro rfl
    have same : numeral? (trim t) = numeral? t := by
      unfold numeral?
      rw [alone, trim, String.toList_ofList]
    rw [isNumber_eq, toFloat?, same] at digit
    rw [isNumber_eq, toFloat?, digit] at word
    cases word
  have one : trim t ≠ "1" := spelled (by decide) (by decide +kernel)
  have zero : trim t ≠ "0" := spelled (by decide) (by decide +kernel)
  rw [fold]
  unfold toBoolean? toTruth at boolean
  dsimp only at boolean
  split at boolean <;> rename_i found
  · exact absurd found one
  case h_7 => exact absurd found zero
  case h_13 => cases boolean
  all_goals
    rw [found]
    decide

/-- A text that spells a number comes before every word for a truth. -/
theorem fold_lt_of_numeral (number : (text s).isNumber = true) (word : (text t).isNumber = false)
    (boolean : (text t).toBoolean?.isSome) : fold s < fold t := by
  rw [isNumber_eq, Option.isSome_iff_exists] at number
  obtain ⟨f, float⟩ := number
  obtain ⟨cs, numeral, -⟩ := Option.bind_eq_some_iff.1 float
  unfold numeral? at numeral
  dsimp only at numeral
  split at numeral
  · rename_i numeric
    obtain ⟨c, rest, first, early⟩ := first_of_looksNumeric numeric
    rw [← String.toList_ofList (l := trimChars s.toList)] at first
    obtain ⟨d, rest', folded, early'⟩ := upper_cons first early
    obtain ⟨c', rest'', word', late⟩ : ∃ c' rest', (fold t).toList = c' :: rest' ∧
        'F'.toNat ≤ c'.toNat := by
      have folds := fold_of_word word boolean
      simp only [List.mem_cons, List.not_mem_nil, or_false] at folds
      rcases folds with same | same | same | same <;> rw [same]
      · exact ⟨'T', _, rfl, by decide⟩
      · exact ⟨'T', _, rfl, by decide⟩
      · exact ⟨'F', _, rfl, by decide⟩
      · exact ⟨'F', _, rfl, by decide⟩
    show (fold s).toList < (fold t).toList
    rw [word']
    show (upper (trim s)).toList < _
    rw [trim, folded]
    exact List.Lex.rel (early'.trans_le late)
  · cases numeral

/-- A type before texts in which not both of two values have a counterpart. -/
theorem not_both_of_text (common : commonType? clock a b = some .text) (type : CommonType)
    (earlier : type ∈ CommonType.every.takeWhile (· != .text)) (hasA : a.hasType clock type = true) :
    b.hasType clock type = false := by
  have both := (commonType?_eq_some common).2 type earlier
  rwa [hasA, Bool.true_and] at both

/-! The keys of two texts that are compared as texts. Those of numbers and of plain texts are in the
order of the folded texts, and those of datetimes and of words for truths are before no other. -/

namespace TextKey

variable {x y : SortKey} (common : commonType? clock (text s) (text t) = some .text)
  (key : TextKey clock t y)

include common key

theorem fold_lt_of_number (number : (text s).isNumber = true) (folded : x.folded? = some (fold s))
    (timed : ((text t).datetime? clock).isSome → (text s).Timed clock (text t))
    (less : x.less y = .yes) : fold s < fold t := by
  cases key with
  | number number' =>
    rw [isNumber_eq] at number number'
    have other := not_both_of_text common .number (by decide) number
    rw [hasType, number'] at other
    cases other
  | datetime moment => exact absurd common (timed (by rw [moment]; rfl)).common
  | word number' boolean => exact fold_lt_of_numeral number number' (by rw [boolean]; rfl)
  | plain => exact (SortKey.less_of_folded (both_none _ _) (both_none _ _) folded rfl).1 less

theorem not_less_of_datetime (moment : (text s).datetime? clock = some m)
    (timed : (text t).isNumber = true → (text t).Timed clock (text s)) :
    (SortKey.moment m).less y ≠ .yes := by
  intro less
  cases key with
  | number number =>
    rw [commonType?_comm] at common
    exact (timed number).common common
  | datetime moment' =>
    have other := not_both_of_text common .moment (by decide)
      (by rw [hasType, (datetime?_eq_some moment).2]; rfl)
    rw [hasType, (datetime?_eq_some moment').2] at other
    cases other
  | word => cases less
  | plain => cases less

theorem not_less_of_word {u : Bool} (boolean : (text s).toBoolean? = some u)
    (noInteger : (text t).toInteger? = none) : (SortKey.boolean u).less y ≠ .yes := by
  intro less
  cases key with
  | number _ integral =>
    rw [noInteger] at integral
    rw [SortKey.less_eq_yes_iff, SortKey.compare_other (by rintro _ _ ⟨⟩), integral] at less
    cases less
  | datetime => cases less
  | word _ boolean' =>
    have other := not_both_of_text common .boolean (by decide) (by rw [hasType, boolean]; rfl)
    rw [hasType, boolean'] at other
    cases other
  | plain => cases less

omit common in
theorem fold_lt_of_plain (less : (SortKey.text (fold s)).less y = .yes) : fold s < fold t := by
  cases key with
  | number _ _ folded => exact (SortKey.less_of_folded rfl rfl rfl folded).1 less
  | datetime => cases less
  | word => cases less
  | plain => exact SortKey.less_text.1 less

end TextKey

/-- Texts that sort before others are less where they are compared as texts. -/
theorem test_less_of_texts
    (words : a.isNumber = false → a.toBoolean?.isSome → b.toInteger?.isSome →
      commonType? clock a b ≠ some .text)
    (timedA : a.isNumber = true → (b.datetime? clock).isSome → a.Timed clock b)
    (timedB : b.isNumber = true → (a.datetime? clock).isSome → b.Timed clock a)
    (common : commonType? clock a b = some .text)
    (less : (SortKey.ofValue clock a).less (SortKey.ofValue clock b) = .yes) :
    a.test clock .less b = .yes := by
  have types := (commonType?_eq_some common).1
  rw [Bool.and_eq_true] at types
  cases a with
  | text s =>
    cases b with
    | text t =>
      suffices order : fold s < fold t by
        apply test_less_of_compareIn? common
        exact congrArg some (Comparison.ofTexts_eq_less_iff.2 order)
      have keyA := textKey_ofValue clock s
      have keyB := textKey_ofValue clock t
      generalize SortKey.ofValue clock (text s) = x at keyA less
      cases keyA with
      | number number integral folded =>
        exact keyB.fold_lt_of_number common number folded (timedA number) less
      | datetime moment =>
        have timed (number : (text t).isNumber = true) := timedB number (by rw [moment]; rfl)
        exact absurd less (keyB.not_less_of_datetime common moment timed)
      | word number boolean =>
        have noInteger : (text t).toInteger? = none := by
          rw [← Option.not_isSome_iff_eq_none]
          intro integer
          exact words number (by rw [boolean]; rfl) integer common
        exact absurd less (keyB.not_less_of_word common boolean noInteger)
      | plain => exact keyB.fold_lt_of_plain less
    | _ => cases types.2
  | _ => cases types.1

/-! ## All values -/

theorem test_less_of_none (common : commonType? clock a b = none) :
    a.test clock .less b = .unknown := by
  have compared := compare_eq_compareIn? clock a b
  rw [common, Option.elim_none] at compared
  rw [test, Option.some.inj compared]
  rfl

theorem test_less_of_booleans (common : commonType? clock a b = some .boolean) :
    a.test clock .less b = .unknown := by
  have compared := compare_eq_compareIn? clock a b
  rw [common, Option.elim_some, compareIn?] at compared
  cases ha : a.toBoolean? <;> cases hb : b.toBoolean? <;> rw [ha, hb] at compared
  case some.some t u =>
    rw [test, Option.some.inj compared]
    cases t <;> cases u <;> rfl
  all_goals cases compared

/-- A value that sorts before another one is less than it, and the comparison is unknown exactly if
the two have no common type or are compared as booleans. This leaves out a boolean word before an
integer that is compared with it as a text, and a number beside a datetime if they are compared as
texts, if a layout reads the number as a moment, if the datetime is in a leap second, or if a
fraction is rounded to the datetime. -/
theorem test_less_of_sorts_before (calendarA : a.InCalendar) (calendarB : b.InCalendar)
    (words : a.isNumber = false → a.toBoolean?.isSome → b.toInteger?.isSome →
      commonType? clock a b ≠ some .text)
    (timedA : a.isNumber = true → (b.datetime? clock).isSome → a.Timed clock b)
    (timedB : b.isNumber = true → (a.datetime? clock).isSome → b.Timed clock a)
    (less : (SortKey.ofValue clock a).less (SortKey.ofValue clock b) = .yes) :
    a.test clock .less b =
      if commonType? clock a b ∈ [none, some .boolean] then .unknown else .yes := by
  cases common : commonType? clock a b with
  | none => exact test_less_of_none common
  | some type =>
    cases type with
    | null =>
      have types := (commonType?_eq_some common).1
      rw [hasType, Bool.and_eq_true] at types
      cases a with
      | null => cases less
      | _ => cases types.1
    | integer => exact test_less_of_integers common less
    | number => exact test_less_of_numbers common less
    | moment => exact test_less_of_moments calendarA calendarB timedA timedB common less
    | boolean => exact test_less_of_booleans common
    | text => exact test_less_of_texts words timedA timedB common less

/-- One and a quarter seconds sort before the moment after one and a half and are less than it. -/
theorem test_less_of_sorts_before_seconds :
    (float 1.25).test {} .less (moment ⟨1, 500000000, 0⟩) = .yes := by
  refine (@test_less_of_sorts_before {} (float 1.25) (moment ⟨1, 500000000, 0⟩) trivial (by decide)
    (fun h => ?_) (fun _ _ => ?_) (fun h => ?_) (by decide)).trans (by decide +kernel)
  · cases h.symm.trans (by decide : (float 1.25).isNumber = true)
  · refine ⟨by decide, by decide +kernel, ?_, fun _ m n found found' => ?_⟩
    · rintro m ⟨⟩
      decide
    · have own : (float 1.25).toMoment? {} = some ⟨1, 250000000, 0⟩ := by decide
      cases own.symm.trans found
      cases found'
      decide
  · cases h.symm.trans (by decide : (moment ⟨1, 500000000, 0⟩).isNumber = false)

/-- The sort order and `<` disagree about a boolean word and an integer, about an integer beyond the
calendar and a datetime as texts, about an integer that a layout reads as a moment, about the second
after a leap second, and about a fraction that is rounded to the moment. -/
theorem sorts_before_of_not_less :
    let disagree (clock : Clock) (a b : Value) :=
      (SortKey.ofValue clock a).less (SortKey.ofValue clock b) = .yes ∧ a.test clock .less b = .no
    disagree {} (text "true") (text "5") ∧
      disagree {} (text "2024-01-01 00:00:00") (text "100000000000000") ∧
      disagree { layouts := ["%Y%m%d"] } (text "20240101") (moment ⟨20240102, 0, 0⟩) ∧
      disagree {} (integer 60) (moment ⟨59, 1500000000, 0⟩) ∧
      disagree {} (moment ⟨0, 100000000, 0⟩) (float 0.10000000000000002) := by
  decide

end Value

end TableQuery
