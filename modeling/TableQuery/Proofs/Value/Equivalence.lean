import TableQuery.Proofs.Number.Reading
import TableQuery.Proofs.Value.SortKey

/-!
# The equality that forms groups

Two values are equivalent if their counterparts in their first common type are equal. That is
symmetric, and a value is equivalent to itself unless it is not a number or an unknown truth. It is
an equivalence among values that are compared in one type, but not across types: a moment equals
the number of its seconds and the number 1 equals TRUE, while no moment equals TRUE.
-/

namespace TableQuery

open Calendar

/-- The types in which values are compared, in the order in which they are tried. NULL has a
counterpart in a type of its own. -/
inductive CommonType where
  | null
  | integer
  | number
  | moment
  | boolean
  | text
  deriving DecidableEq, Repr

/-- All types. -/
def CommonType.every : List CommonType :=
  [.null, .integer, .number, .moment, .boolean, .text]

namespace Value

variable {clock : Clock} {a b c : Value}

/-! ## Common types -/

/-- Whether the value has a counterpart in the type. -/
def hasType (clock : Clock) : CommonType → Value → Bool
  | .null, v => v.isNull
  | .integer, v => v.toInteger?.isSome
  | .number, v => v.toFloat?.isSome
  | .moment, v => (v.toMoment? clock).isSome
  | .boolean, v => v.toBoolean?.isSome
  | .text, text _ => true
  | .text, _ => false

/-- The first type in which both values have a counterpart: the one in which they are compared. -/
def commonType? (clock : Clock) (a b : Value) : Option CommonType :=
  CommonType.every.find? fun type => a.hasType clock type && b.hasType clock type

/-- The counterparts of both values in the type are equal. -/
def SameIn (clock : Clock) : CommonType → Value → Value → Prop
  | .null, a, b => a = null ∧ b = null
  | .integer, a, b => ∃ i j, a.toInteger? = some i ∧ b.toInteger? = some j ∧ i = j
  | .number, a, b => ∃ f g : Float, a.toFloat? = some f ∧ b.toFloat? = some g ∧ f == g
  | .moment, a, b => ∃ m n : Moment, a.toMoment? clock = some m ∧ b.toMoment? clock = some n ∧
      m.second = n.second ∧ m.nano = n.nano
  | .boolean, a, b => ∃ t u, a.toBoolean? = some t ∧ b.toBoolean? = some u ∧ t = u
  | .text, a, b => ∃ s t, a = text s ∧ b = text t ∧ fold s = fold t

/-- Values equal to one value in a type are equal to each other in it. -/
theorem SameIn.trans {type : CommonType} (hab : SameIn clock type a b)
    (hbc : SameIn clock type b c) : SameIn clock type a c := by
  cases type with
  | null => exact ⟨hab.1, hbc.2⟩
  | integer =>
    obtain ⟨i, j, ha, hb, hij⟩ := hab
    obtain ⟨j', k, hb', hc, hjk⟩ := hbc
    cases hb.symm.trans hb'
    exact ⟨i, k, ha, hc, hij.trans hjk⟩
  | number =>
    obtain ⟨f, g, ha, hb, hfg⟩ := hab
    obtain ⟨g', h, hb', hc, hgh⟩ := hbc
    cases hb.symm.trans hb'
    rw [Number.beq_iff_place] at hfg hgh
    exact ⟨f, h, ha, hc, Number.beq_iff_place.mpr ⟨hfg.1, hgh.2.1, hfg.2.2.trans hgh.2.2⟩⟩
  | moment =>
    obtain ⟨m, n, ha, hb, second, nano⟩ := hab
    obtain ⟨n', o, hb', hc, second', nano'⟩ := hbc
    cases hb.symm.trans hb'
    exact ⟨m, o, ha, hc, second.trans second', nano.trans nano'⟩
  | boolean =>
    obtain ⟨t, u, ha, hb, htu⟩ := hab
    obtain ⟨u', v, hb', hc, huv⟩ := hbc
    cases hb.symm.trans hb'
    exact ⟨t, v, ha, hc, htu.trans huv⟩
  | text =>
    obtain ⟨s, t, ha, hb, hst⟩ := hab
    obtain ⟨t', u, hb', hc, htu⟩ := hbc
    cases hb.symm.trans hb'
    exact ⟨s, u, ha, hc, hst.trans htu⟩

/-! ## How values compare -/

/-- Values compare in the first type that gives a comparison. -/
theorem compare_eq (clock : Clock) (a b : Value) : a.compare clock b =
    if a.isNull || b.isNull then .incommensurable
    else ((((both a.toInteger? b.toInteger? Comparison.ofIntegers).or
      (both a.toFloat? b.toFloat? Comparison.ofFloats)).or
      (both (a.toMoment? clock) (b.toMoment? clock) Comparison.ofMoments)).or
      (both a.toBoolean? b.toBoolean? Comparison.ofBooleans)).or
      (compareTexts? a b) |>.getD .incommensurable := by
  unfold compare
  generalize both a.toInteger? b.toInteger? Comparison.ofIntegers = integers
  generalize both a.toFloat? b.toFloat? Comparison.ofFloats = numbers
  generalize both (a.toMoment? clock) (b.toMoment? clock) Comparison.ofMoments = moments
  generalize both a.toBoolean? b.toBoolean? Comparison.ofBooleans = booleans
  split
  · rfl
  · cases integers <;> cases numbers <;> cases moments <;> cases booleans <;> rfl

theorem swap_ofBooleans (s t : Bool) :
    (Comparison.ofBooleans s t).swap = Comparison.ofBooleans t s := by
  cases s <;> cases t <;> rfl

theorem swap_compareTexts? (a b : Value) :
    (compareTexts? a b).map Comparison.swap = compareTexts? b a := by
  cases a with
  | text s =>
    cases b with
    | text t => exact congrArg some (Comparison.swap_ofTexts (fold s) (fold t))
    | _ => rfl
  | _ => cases b <;> rfl

theorem swap_compare (clock : Clock) (a b : Value) :
    (a.compare clock b).swap = b.compare clock a := by
  rw [compare_eq, compare_eq, Bool.or_comm b.isNull,
    ← SortKey.swap_both Comparison.swap_ofIntegers a.toInteger?,
    ← SortKey.swap_both Comparison.swap_ofFloats a.toFloat?,
    ← SortKey.swap_both Comparison.swap_ofMoments (a.toMoment? clock),
    ← SortKey.swap_both swap_ofBooleans a.toBoolean?, ← swap_compareTexts? a]
  generalize both a.toInteger? b.toInteger? Comparison.ofIntegers = integers
  generalize both a.toFloat? b.toFloat? Comparison.ofFloats = numbers
  generalize both (a.toMoment? clock) (b.toMoment? clock) Comparison.ofMoments = moments
  generalize both a.toBoolean? b.toBoolean? Comparison.ofBooleans = booleans
  generalize compareTexts? a b = texts
  split
  · rfl
  · cases integers <;> cases numbers <;> cases moments <;> cases booleans <;> cases texts <;> rfl

/-- Equality does not see an exchange of its sides. -/
theorem equivalent_comm (clock : Clock) (a b : Value) :
    a.equivalent clock b = b.equivalent clock a := by
  unfold equivalent test
  rw [Bool.and_comm b.isNull, ← swap_compare clock a b]
  cases a.compare clock b <;> rfl

/-! ## Equality in a type -/

theorem equal_ofOrder_iff {less greater equal : Bool} :
    CompareOp.equal.eval (.ofOrder less greater equal) = .yes ↔
      less = false ∧ greater = false ∧ equal = true := by
  cases less <;> cases greater <;> cases equal <;> decide

theorem equal_ofIntegers_iff {i j : Int64} :
    CompareOp.equal.eval (.ofIntegers i j) = .yes ↔ i = j := by
  rw [Comparison.ofIntegers, equal_ofOrder_iff, beq_iff_eq]
  constructor
  · exact fun h => h.2.2
  · rintro rfl
    simp [Int64.lt_irrefl]

theorem equal_ofFloats_iff {f g : Float} :
    CompareOp.equal.eval (.ofFloats f g) = .yes ↔ f == g := by
  rw [Comparison.ofFloats, equal_ofOrder_iff]
  constructor
  · exact fun h => h.2.2
  · intro h
    obtain ⟨hf, hg, same⟩ := Number.beq_iff_place.mp h
    refine ⟨decide_eq_false ?_, decide_eq_false ?_, h⟩
    · rw [Number.lt_iff_place hf hg, same]
      exact lt_irrefl _
    · rw [Number.lt_iff_place hg hf, same]
      exact lt_irrefl _

theorem equal_ofMoments_iff {m n : Moment} :
    CompareOp.equal.eval (.ofMoments m n) = .yes ↔ m.second = n.second ∧ m.nano = n.nano := by
  have neither : CompareOp.equal.eval (.ofMoments m n) = .yes ↔
      m.before n = false ∧ n.before m = false := by
    unfold Comparison.ofMoments
    cases m.before n <;> cases n.before m <;> decide
  rw [neither]
  simp only [Moment.before, Bool.or_eq_false_iff, Bool.and_eq_false_imp, decide_eq_false_iff_not,
    beq_iff_eq]
  omega

theorem equal_ofBooleans_iff {s t : Bool} :
    CompareOp.equal.eval (.ofBooleans s t) = .yes ↔ s = t := by
  cases s <;> cases t <;> decide

theorem equal_ofTexts_iff {s t : String} :
    CompareOp.equal.eval (.ofTexts s t) = .yes ↔ s = t := by
  rw [Comparison.ofTexts, equal_ofOrder_iff, beq_iff_eq]
  constructor
  · exact fun h => h.2.2
  · rintro rfl
    simp

/-! ## Equivalence in a common type -/

/-- The truth of the values' equality in the type, if both have a counterpart in it. -/
def equivalentIn? (clock : Clock) : CommonType → Value → Value → Option Truth
  | .null, a, b => if a.isNull && b.isNull then some .yes else none
  | .integer, a, b =>
    (both a.toInteger? b.toInteger? Comparison.ofIntegers).map CompareOp.equal.eval
  | .number, a, b => (both a.toFloat? b.toFloat? Comparison.ofFloats).map CompareOp.equal.eval
  | .moment, a, b =>
    (both (a.toMoment? clock) (b.toMoment? clock) Comparison.ofMoments).map CompareOp.equal.eval
  | .boolean, a, b =>
    (both a.toBoolean? b.toBoolean? Comparison.ofBooleans).map CompareOp.equal.eval
  | .text, a, b => (compareTexts? a b).map CompareOp.equal.eval

theorem isSome_both {α β : Type} (x y : Option α) (f : α → α → β) :
    (both x y f).isSome = (x.isSome && y.isSome) := by
  cases x <;> cases y <;> rfl

theorem isSome_equivalentIn? (clock : Clock) (type : CommonType) (a b : Value) :
    (equivalentIn? clock type a b).isSome = (a.hasType clock type && b.hasType clock type) := by
  cases type with
  | null => cases a <;> cases b <;> rfl
  | text => cases a <;> cases b <;> rfl
  | _ =>
    unfold equivalentIn? hasType
    rw [Option.isSome_map, isSome_both]

theorem map_both_eq_some_iff {α β γ : Type} {x y : Option α} {f : α → α → β} {g : β → γ} {z : γ} :
    (both x y f).map g = some z ↔ ∃ s t, x = some s ∧ y = some t ∧ g (f s t) = z := by
  cases x <;> cases y <;> simp [both]

/-- Values are equal in a type exactly if their counterparts are. -/
theorem equivalentIn?_eq_yes_iff {type : CommonType} :
    equivalentIn? clock type a b = some .yes ↔ SameIn clock type a b := by
  cases type with
  | null => cases a <;> cases b <;> simp [equivalentIn?, SameIn, isNull]
  | integer => simp only [equivalentIn?, SameIn, map_both_eq_some_iff, equal_ofIntegers_iff]
  | number => simp only [equivalentIn?, SameIn, map_both_eq_some_iff, equal_ofFloats_iff]
  | moment => simp only [equivalentIn?, SameIn, map_both_eq_some_iff, equal_ofMoments_iff]
  | boolean => simp only [equivalentIn?, SameIn, map_both_eq_some_iff, equal_ofBooleans_iff]
  | text =>
    cases a <;> cases b <;> simp [equivalentIn?, SameIn, compareTexts?, equal_ofTexts_iff]

theorem both_none {α β : Type} (x : Option α) (f : α → α → β) : both x none f = none := by
  cases x <;> rfl

/-- Values are equivalent if they are equal in the first type that has counterparts of both. -/
theorem equivalent_eq_findSome? (clock : Clock) (a b : Value) : a.equivalent clock b =
    (CommonType.every.findSome? fun type => equivalentIn? clock type a b).getD .unknown := by
  cases ha : a.isNull with
  | true =>
    cases a <;> cases ha
    cases b <;> rfl
  | false =>
    cases hb : b.isNull with
    | true =>
      cases b <;> cases hb
      have texts : compareTexts? a null = none := by cases a <;> rfl
      simp only [CommonType.every, List.findSome?_cons, equivalentIn?, ha, texts,
        equivalent, test, compare, toInteger?, toFloat?, toMoment?, toBoolean?, both_none]
      rfl
    | false =>
      simp only [CommonType.every, List.findSome?_cons, equivalentIn?, equivalent, test,
        compare_eq, ha, hb]
      generalize both a.toInteger? b.toInteger? Comparison.ofIntegers = integers
      generalize both a.toFloat? b.toFloat? Comparison.ofFloats = numbers
      generalize both (a.toMoment? clock) (b.toMoment? clock) Comparison.ofMoments = moments
      generalize both a.toBoolean? b.toBoolean? Comparison.ofBooleans = booleans
      generalize compareTexts? a b = texts
      cases integers <;> cases numbers <;> cases moments <;> cases booleans <;> cases texts <;> rfl

/-- Values are compared in their common type. -/
theorem equivalentIn?_commonType {type : CommonType} (h : commonType? clock a b = some type) :
    equivalentIn? clock type a b = some (a.equivalent clock b) := by
  obtain ⟨found, before, after, split, skipped⟩ := List.find?_eq_some_iff_append.mp h
  rw [← isSome_equivalentIn?] at found
  obtain ⟨truth, equal⟩ := Option.isSome_iff_exists.mp found
  have none_before : before.findSome? (fun type => equivalentIn? clock type a b) = none := by
    rw [List.findSome?_eq_none_iff]
    intro earlier mem
    have miss := skipped earlier mem
    rw [← isSome_equivalentIn?] at miss
    exact Option.not_isSome_iff_eq_none.mp (by simpa using miss)
  rw [equivalent_eq_findSome?, split, List.findSome?_append, none_before, List.findSome?_cons,
    equal]
  rfl

/-- Values are equivalent exactly if their counterparts in their common type are equal. -/
theorem equivalent_iff_of_commonType {type : CommonType} (h : commonType? clock a b = some type) :
    a.equivalent clock b = .yes ↔ SameIn clock type a b := by
  rw [← equivalentIn?_eq_yes_iff, equivalentIn?_commonType h, Option.some.injEq]

/-! ## Reflexivity -/

/-- The values that are not even equal to themselves: what is no number, and the unknown truth. -/
def isUndecided : Value → Bool
  | nan _ => true
  | float f => f.isNaN
  | truth .unknown => true
  | _ => false

/-- A value with a number is equal to itself in every type in which it has a counterpart. -/
theorem sameIn_self {type : CommonType} (h : a.hasType clock type)
    (numbers : ∀ f, a.toFloat? = some f → f.isNaN = false) : SameIn clock type a a := by
  cases type with
  | null =>
    cases a <;> cases h
    exact ⟨rfl, rfl⟩
  | integer =>
    obtain ⟨i, hi⟩ := Option.isSome_iff_exists.mp h
    exact ⟨i, i, hi, hi, rfl⟩
  | number =>
    obtain ⟨f, hf⟩ := Option.isSome_iff_exists.mp h
    have number := numbers f hf
    exact ⟨f, f, hf, hf, Number.beq_iff_place.mpr ⟨number, number, rfl⟩⟩
  | moment =>
    obtain ⟨m, hm⟩ := Option.isSome_iff_exists.mp h
    exact ⟨m, m, hm, hm, rfl, rfl⟩
  | boolean =>
    obtain ⟨t, ht⟩ := Option.isSome_iff_exists.mp h
    exact ⟨t, t, ht, ht, rfl⟩
  | text =>
    cases a <;> cases h
    exact ⟨_, _, rfl, rfl, rfl⟩

theorem commonType?_self {type : CommonType} (h : a.hasType clock type) :
    ∃ first, commonType? clock a a = some first ∧ a.hasType clock first := by
  have some_type : (commonType? clock a a).isSome := by
    unfold commonType?
    rw [List.find?_isSome]
    exact ⟨type, by cases type <;> decide, by rw [h]; rfl⟩
  obtain ⟨first, hfirst⟩ := Option.isSome_iff_exists.mp some_type
  have found := List.find?_some hfirst
  rw [Bool.and_self] at found
  exact ⟨first, hfirst, found⟩

theorem equivalent_self_of_number (type : CommonType) (h : a.hasType clock type)
    (numbers : ∀ f, a.toFloat? = some f → f.isNaN = false) : a.equivalent clock a = .yes := by
  obtain ⟨first, common, found⟩ := commonType?_self h
  exact (equivalent_iff_of_commonType common).mpr (sameIn_self found numbers)

theorem commonType?_of_floats {f g : Float} (fraction : a.toInteger? = none)
    (ha : a.toFloat? = some f) (hb : b.toFloat? = some g) :
    commonType? clock a b = some .number := by
  have value : a.isNull = false := by cases a <;> first | rfl | cases ha
  simp [commonType?, CommonType.every, hasType, fraction, ha, hb, value]

/-- Not a number equals nothing, itself included. -/
theorem equivalent_of_isNaN {f g : Float} (hf : f.isNaN = true) (fraction : a.toInteger? = none)
    (ha : a.toFloat? = some f) (hb : b.toFloat? = some g) : a.equivalent clock b = .unknown := by
  have incommensurable : Comparison.ofFloats f g = .incommensurable := by
    have less : ¬ f < g := Number.not_lt_of_isNaN (.inl hf)
    have greater : ¬ g < f := Number.not_lt_of_isNaN (.inr hf)
    have differs : (f == g) = false := by
      rw [← Bool.not_eq_true, Number.beq_iff_place, hf]
      rintro ⟨⟨⟩, -⟩
    simp [Comparison.ofFloats, Comparison.ofOrder, less, greater, differs]
  have common : commonType? clock a b = some .number := commonType?_of_floats fraction ha hb
  have equal := equivalentIn?_commonType common
  rw [equivalentIn?, ha, hb, both, incommensurable] at equal
  exact (Option.some.inj equal).symm

theorem wholeFloat?_of_isNaN {f : Float} (h : f.isNaN = true) : wholeFloat? f = none := by
  unfold wholeFloat?
  rw [Number.isFinite_of_isNaN h]
  rfl

/-- A text does not denote what is not a number. -/
theorem isNaN_toFloat?_text {s : String} {f : Float} (h : (text s).toFloat? = some f) :
    f.isNaN = false := by
  obtain ⟨cs, numeral, read⟩ := Option.bind_eq_some_iff.mp h
  unfold numeral? at numeral
  dsimp only at numeral
  split at numeral
  · rename_i looks
    cases numeral
    exact Number.isNaN_readFloat? looks read
  · cases numeral

/-- A value is equivalent to itself, unless that is undecided. -/
theorem equivalent_self (clock : Clock) (a : Value) :
    a.equivalent clock a = if a.isUndecided then .unknown else .yes := by
  cases a with
  | null => rfl
  | integer i =>
    have common : commonType? clock (integer i) (integer i) = some .integer := rfl
    exact (equivalent_iff_of_commonType common).mpr ⟨i, i, rfl, rfl, rfl⟩
  | float f =>
    cases hf : f.isNaN with
    | true =>
      rw [isUndecided, hf]
      exact equivalent_of_isNaN hf (wholeFloat?_of_isNaN hf) rfl rfl
    | false =>
      rw [isUndecided, hf]
      refine equivalent_self_of_number .number rfl ?_
      rintro g ⟨⟩
      exact hf
  | nan s =>
    have undecided : Number.notANumber.isNaN = true := by decide +kernel
    exact equivalent_of_isNaN undecided rfl rfl rfl
  | moment m => exact equivalent_self_of_number .moment rfl (by rintro f ⟨⟩)
  | boolean t =>
    exact equivalent_self_of_number .boolean (by cases t <;> rfl) (by rintro f ⟨⟩)
  | truth t =>
    cases t with
    | unknown => rfl
    | _ => exact equivalent_self_of_number .boolean rfl (by rintro f ⟨⟩)
  | text s => exact equivalent_self_of_number .text rfl fun _ => isNaN_toFloat?_text

/-! ## Transitivity -/

theorem commonType?_of_integers {i j : Int64} (ha : a.toInteger? = some i)
    (hb : b.toInteger? = some j) : commonType? clock a b = some .integer := by
  have value : a.isNull = false := by cases a <;> first | rfl | cases ha
  simp [commonType?, CommonType.every, hasType, ha, hb, value]

/-- Values equivalent to one value are equivalent to each other if the three are compared in one
type, as they are if that is the type of integers or of NULL. -/
theorem equivalent_trans {type : CommonType} (hab : commonType? clock a b = some type)
    (hbc : commonType? clock b c = some type)
    (hac : type = .null ∨ type = .integer ∨ commonType? clock a c = some type)
    (ab : a.equivalent clock b = .yes) (bc : b.equivalent clock c = .yes) :
    a.equivalent clock c = .yes := by
  rw [equivalent_iff_of_commonType hab] at ab
  rw [equivalent_iff_of_commonType hbc] at bc
  have ac := ab.trans bc
  have common : commonType? clock a c = some type := by
    obtain rfl | rfl | common := hac
    · obtain ⟨rfl, rfl⟩ := ac
      rfl
    · obtain ⟨i, j, ha, hc, -⟩ := ac
      exact commonType?_of_integers ha hc
    · exact common
  exact (equivalent_iff_of_commonType common).mpr ac

/-- A value is equivalent to itself unless that is undecided, the equivalence has no sides, and it is
transitive among values that are compared in one type. -/
theorem equivalent_laws (clock : Clock) :
    (∀ a : Value, a.equivalent clock a = if a.isUndecided then .unknown else .yes) ∧
    (∀ a b : Value, a.equivalent clock b = b.equivalent clock a) ∧
    ∀ (type : CommonType) (a b c : Value),
      commonType? clock a b = some type → commonType? clock b c = some type →
      (type = .null ∨ type = .integer ∨ commonType? clock a c = some type) →
      a.equivalent clock b = .yes → b.equivalent clock c = .yes →
      a.equivalent clock c = .yes :=
  ⟨equivalent_self clock, equivalent_comm clock, fun _ _ _ _ => equivalent_trans⟩

/-- The texts `5` and `+5` are equivalent as both are to the number 5, and so are `b` and `B`. -/
theorem equivalent_laws_spelled :
    (text " 5").equivalent {} (text "+5") = .yes ∧
      (text "b").equivalent {} (text " B ") = .yes := by
  obtain ⟨-, -, transitive⟩ := equivalent_laws {}
  exact ⟨transitive .integer (text " 5") (integer 5) (text "+5") (by decide +kernel)
      (by decide +kernel) (.inr (.inl rfl)) (by decide +kernel) (by decide +kernel),
    transitive .text (text "b") (text "B") (text " B ") (by decide +kernel)
      (by decide +kernel) (.inr (.inr (by decide +kernel))) (by decide +kernel)
      (by decide +kernel)⟩

/-- What is not a number is not equivalent to itself, and the first second of 1970 and TRUE are each
equivalent to 1 but not to each other. -/
theorem equivalent_lawless :
    (nan false).equivalent {} (nan false) ≠ .yes ∧
      (moment ⟨1, 0, 0⟩).equivalent {} (integer 1) = .yes ∧
      (integer 1).equivalent {} (boolean true) = .yes ∧
      (moment ⟨1, 0, 0⟩).equivalent {} (boolean true) ≠ .yes := by
  decide +kernel

end Value

end TableQuery
