import TableQuery.Proofs.Calendar.Range
import TableQuery.Proofs.Number.Printing
import TableQuery.Proofs.Value.Equivalence
import TableQuery.Proofs.Value.RowKey

/-!
# Values of one key

The key of a value spells its first counterpart among integers, floats, moments, booleans and texts,
and values with one key are equivalent, with three reservations. What is not a number and the
unknown truth have keys although they are equivalent to nothing. The key of a moment with a fraction
of a second spells a double, which many moments share. And a text of digits goes into its key as a
number even if a layout reads it as a moment.
-/

namespace TableQuery

open Calendar Number

namespace Value

variable {clock : Clock} {a b v : Value}

/-! ## Counterparts -/

/-- An integer is spelled digit by digit, or it is a whole float. -/
theorem toInteger?_eq (v : Value) :
    v.toInteger? = v.toIntegerStrictly?.or (v.toFloat?.bind wholeFloat?) := by
  cases v with
  | nan _ =>
    have strange : notANumber.isNaN = true := by decide
    exact (wholeFloat?_of_isNaN strange).symm
  | text s =>
    show (numeral? s).bind (fun cs => (readInteger? cs).or ((readFloat? cs).bind wholeFloat?)) =
      ((numeral? s).bind readInteger?).or (((numeral? s).bind readFloat?).bind wholeFloat?)
    cases numeral? s <;> rfl
  | _ => rfl

/-- Whether the value denotes a number. -/
def isNumber (v : Value) : Bool :=
  v.toIntegerStrictly?.isSome || v.toFloat?.isSome

/-- The moment that a value denotes that denotes no number. -/
def datetime? (clock : Clock) (v : Value) : Option Moment :=
  if v.isNumber then none else v.toMoment? clock

/-- The moment that a layout finds in a text that denotes a number as well. -/
def readByLayout? (clock : Clock) : Value → Option Moment
  | text s => if (text s).isNumber then clock.read? s else none
  | _ => none

/-- A moment has a date of the calendar. -/
def InCalendar : Value → Prop
  | moment m => m.InRange
  | _ => True

instance (v : Value) : Decidable v.InCalendar :=
  match v with
  | moment m => inferInstanceAs (Decidable m.InRange)
  | null | integer _ | float _ | nan _ | boolean _ | truth _ | text _ => isTrue trivial

theorem inRange_momentOfFloat? {f : Float} {m : Moment} (h : momentOfFloat? clock f = some m) :
    m.InRange := by
  unfold momentOfFloat? at h
  split at h
  · exact (Clock.ofSeconds?_eq_some h).1
  · cases h

/-- The moments that values denote have dates of the calendar. -/
theorem inRange_toMoment? {m : Moment} (calendar : v.InCalendar) (h : v.toMoment? clock = some m) :
    m.InRange := by
  cases v with
  | moment n =>
    cases h
    exact calendar
  | integer i => exact (Clock.ofSeconds?_eq_some h).1
  | float f => exact inRange_momentOfFloat? h
  | text s =>
    rw [toMoment?] at h
    split at h
    · rename_i read
      cases h
      exact Clock.inRange_read? read
    · obtain ⟨cs, -, h⟩ := Option.bind_eq_some_iff.1 h
      split at h
      · exact (Clock.ofSeconds?_eq_some h).1
      · obtain ⟨f, -, h⟩ := Option.bind_eq_some_iff.1 h
        exact inRange_momentOfFloat? h
  | _ => cases h

/-! ## The forms of keys -/

/-- What the key of a value spells. -/
inductive KeyForm where
  | nothing
  | integer (i : Int64)
  | number (f : Float)
  | moment (m : Moment)
  | boolean (t : Bool)
  | text (s : String)

namespace KeyForm

/-- The first counterpart of a value. -/
def ofValue (clock : Clock) (v : Value) : KeyForm :=
  match v.toIntegerStrictly?, v.toFloat?, v.toMoment? clock, v.toBoolean?, v with
  | some i, _, _, _, _ => integer i
  | none, some f, _, _, _ => number f
  | none, none, some m, _, _ => moment m
  | none, none, none, some t, _ => boolean t
  | none, none, none, none, .text s => text s
  | none, none, none, none, _ => nothing

/-- The first three characters of the key. -/
def tag : KeyForm → String
  | nothing => "[N]"
  | integer _ => "[I]"
  | number _ => "[F]"
  | moment m => if 0 < m.nano then "[F]" else "[I]"
  | boolean _ => "[I]"
  | text _ => "[S]"

/-- The key without its tag. -/
def body : KeyForm → String
  | nothing => ""
  | integer i => integerText i
  | number f => floatText f
  | moment m => if 0 < m.nano then floatText m.epoch else toString m.second
  | boolean t => if t then "1[B]T" else "0[B]F"
  | text s => fold s

end KeyForm

theorem key_eq_tag_body (clock : Clock) (v : Value) :
    v.key clock = (KeyForm.ofValue clock v).tag ++ (KeyForm.ofValue clock v).body := by
  by_cases null : v = .null
  · subst null
    rfl
  have value : v.isNull = false := by cases v <;> first | rfl | exact absurd rfl null
  unfold key KeyForm.ofValue
  rw [value]
  cases v.toIntegerStrictly? with
  | some i => rfl
  | none =>
    cases v.toFloat? with
    | some f => rfl
    | none =>
      cases v.toMoment? clock with
      | some m =>
        show momentKey m = _
        by_cases fraction : 0 < m.nano <;> simp [momentKey, KeyForm.tag, KeyForm.body, fraction]
      | none =>
        cases v.toBoolean? with
        | some t => cases t <;> rfl
        | none => cases v <;> rfl

/-! ## Keys tell forms apart -/

namespace KeyForm

variable {x y : KeyForm}

theorem length_tag (x : KeyForm) : x.tag.toList.length = 3 := by
  cases x <;> simp only [tag]
  case moment => split <;> decide
  all_goals decide

theorem tag_append_inj (same : x.tag ++ x.body = y.tag ++ y.body) :
    x.tag = y.tag ∧ x.body = y.body := by
  rw [← String.toList_inj, String.toList_append, String.toList_append] at same
  obtain ⟨tags, bodies⟩ := List.append_inj same (x.length_tag.trans y.length_tag.symm)
  exact ⟨String.toList_inj.1 tags, String.toList_inj.1 bodies⟩

/-- Two forms that are spelled alike when no moment has a fraction of a second. -/
inductive Alike : KeyForm → KeyForm → Prop where
  | refl (x : KeyForm) : Alike x x
  | noNumber {f g : Float} : f.isNaN = true → g.isNaN = true → Alike (number f) (number g)
  | texts {s t : String} : fold s = fold t → Alike (text s) (text t)
  | moments {m n : Moment} : m.nano = 0 → n.nano = 0 → m.second = n.second →
      Alike (moment m) (moment n)
  | second {i : Int64} {m : Moment} : m.nano = 0 → m.second = i.toInt → Alike (integer i) (moment m)
  | count {i : Int64} {m : Moment} : m.nano = 0 → m.second = i.toInt → Alike (moment m) (integer i)

theorem integerText_inj {i j : Int64} (same : integerText i = integerText j) : i = j :=
  Int64.toInt_inj.1 (Int.repr_inj.1 same)

/-- The key of a boolean does not spell an integer. -/
theorem repr_ne_boolean (i : Int) (t : Bool) : i.repr ≠ if t then "1[B]T" else "0[B]F" := by
  intro same
  have none := not_mem_repr (c := '[') (by decide) (by decide) i
  rw [same] at none
  cases t <;> exact none (by decide)

theorem number_of_body {f g : Float} (same : floatText f = floatText g) :
    Alike (number f) (number g) := by
  cases hf : f.isNaN with
  | false =>
    rw [floatText_inj hf same]
    exact .refl _
  | true =>
    cases hg : g.isNaN with
    | false =>
      rw [floatText_inj hg same.symm]
      exact .refl _
    | true => exact .noNumber hf hg

/-- Forms with one spelling are alike, if no moment among them has a fraction of a second. -/
theorem alike_of_key (whole : ∀ m, x = moment m ∨ y = moment m → m.nano = 0)
    (tags : x.tag = y.tag) (bodies : x.body = y.body) : Alike x y := by
  -- the tags leave the diagonal and the integers, which moments and booleans share a tag with
  cases x with
  | nothing =>
    cases y with
    | nothing => exact .refl _
    | moment n => simp [tag, whole n (.inr rfl)] at tags
    | _ => simp [tag] at tags
  | integer i =>
    cases y with
    | integer j =>
      rw [integerText_inj bodies]
      exact .refl _
    | moment n =>
      have second := whole n (.inr rfl)
      simp only [body, second] at bodies
      exact .second second (Int.repr_inj.1 bodies.symm)
    | boolean t => exact absurd bodies (repr_ne_boolean _ t)
    | _ => simp [tag] at tags
  | number f =>
    cases y with
    | number g => exact number_of_body bodies
    | moment n => simp [tag, whole n (.inr rfl)] at tags
    | _ => simp [tag] at tags
  | moment m =>
    have second := whole m (.inl rfl)
    simp only [tag, body, second] at tags bodies
    cases y with
    | integer j => exact .count second (Int.repr_inj.1 bodies)
    | moment n =>
      have second' := whole n (.inr rfl)
      simp only [second'] at bodies
      exact .moments second second' (Int.repr_inj.1 bodies)
    | boolean t => exact absurd bodies (repr_ne_boolean _ t)
    | _ => simp at tags
  | boolean t =>
    cases y with
    | integer j => exact absurd bodies.symm (repr_ne_boolean _ t)
    | moment n =>
      simp only [body, whole n (.inr rfl)] at bodies
      exact absurd bodies.symm (repr_ne_boolean _ t)
    | boolean u =>
      cases t <;> cases u <;> first | exact .refl _ | simp [body] at bodies
    | _ => simp [tag] at tags
  | text s =>
    cases y with
    | moment n => simp [tag, whole n (.inr rfl)] at tags
    | text t => exact .texts bodies
    | _ => simp [tag] at tags

/-! ## Values of a form -/

/-- The counterparts of a value whose key has the form. -/
def Of (clock : Clock) (v : Value) : KeyForm → Prop
  | nothing => v = null ∨ v = truth .unknown
  | integer i => v.toIntegerStrictly? = some i
  | number f => v.toIntegerStrictly? = none ∧ v.toFloat? = some f
  | moment m => v.datetime? clock = some m
  | boolean t => v.isNumber = false ∧ v.toMoment? clock = none ∧ v.toBoolean? = some t
  | text s => v = .text s ∧ v.isNumber = false ∧ v.toMoment? clock = none ∧ v.toBoolean? = none

theorem of_ofValue (clock : Clock) (v : Value) : (ofValue clock v).Of clock v := by
  unfold ofValue
  cases strict : v.toIntegerStrictly? with
  | some i => exact strict
  | none =>
    cases float : v.toFloat? with
    | some f => exact ⟨strict, float⟩
    | none =>
      have number : v.isNumber = false := by rw [isNumber, strict, float]; rfl
      cases moment : v.toMoment? clock with
      | some m =>
        show v.datetime? clock = some m
        rw [datetime?, number]
        exact moment
      | none =>
        cases boolean : v.toBoolean? with
        | some t => exact ⟨number, moment, boolean⟩
        | none =>
          -- what denotes nothing is a text or no value
          cases v with
          | text s => exact ⟨rfl, number, moment, boolean⟩
          | null => exact .inl rfl
          | truth t => cases t <;> first | exact .inr rfl | cases boolean
          | boolean t => cases t <;> cases boolean
          | integer i => cases strict
          | float f => cases float
          | nan s => cases float
          | moment m => cases moment

end KeyForm

/-! ## Equivalence of values with one key -/

theorem toInteger?_of_strict {i : Int64} (h : v.toIntegerStrictly? = some i) :
    v.toInteger? = some i := by
  rw [toInteger?_eq, h]
  rfl

theorem numbers_of_isNumber (h : v.isNumber = false) :
    v.toInteger? = none ∧ v.toFloat? = none := by
  rw [isNumber, Bool.or_eq_false_iff, Option.isSome_eq_false_iff, Option.isSome_eq_false_iff,
    Option.isNone_iff_eq_none, Option.isNone_iff_eq_none] at h
  rw [toInteger?_eq, h.1, h.2]
  exact ⟨rfl, rfl⟩

theorem datetime?_eq_some {m : Moment} (h : v.datetime? clock = some m) :
    v.isNumber = false ∧ v.toMoment? clock = some m := by
  unfold datetime? at h
  split at h
  · cases h
  · rename_i number
    exact ⟨Bool.eq_false_iff.2 number, h⟩

/-- If one value denotes no number, two values are compared as moments if both are moments. -/
theorem commonType?_of_moments {m n : Moment} (number : a.isNumber = false)
    (ha : a.toMoment? clock = some m) (hb : b.toMoment? clock = some n) :
    commonType? clock a b = some .moment := by
  obtain ⟨integer, float⟩ := numbers_of_isNumber number
  have value : a.isNull = false := by cases a <;> first | rfl | cases ha
  simp [commonType?, CommonType.every, hasType, integer, float, ha, hb, value]

theorem commonType?_of_booleans {t u : Bool} (number : a.isNumber = false)
    (moment : a.toMoment? clock = none) (ha : a.toBoolean? = some t) (hb : b.toBoolean? = some u) :
    commonType? clock a b = some .boolean := by
  obtain ⟨integer, float⟩ := numbers_of_isNumber number
  have value : a.isNull = false := by cases a <;> first | rfl | cases ha
  simp [commonType?, CommonType.every, hasType, integer, float, moment, ha, hb, value]

theorem commonType?_of_texts {s t : String} (number : (text s).isNumber = false)
    (moment : (text s).toMoment? clock = none) (boolean : (text s).toBoolean? = none) :
    commonType? clock (text s) (text t) = some .text := by
  obtain ⟨integer, float⟩ := numbers_of_isNumber number
  simp [commonType?, CommonType.every, hasType, integer, float, moment, boolean, isNull]

/-- An integer counts seconds, unless it is a text that a layout reads. -/
theorem toMoment?_of_strict {i : Int64} (strict : v.toIntegerStrictly? = some i)
    (layout : v.readByLayout? clock = none) : v.toMoment? clock = clock.ofSeconds? i.toInt 0 := by
  cases v with
  | integer j =>
    cases strict
    rfl
  | text s =>
    have number : (text s).isNumber = true := by rw [isNumber, strict]; rfl
    rw [readByLayout?, if_pos number] at layout
    obtain ⟨cs, numeral, read⟩ := Option.bind_eq_some_iff.1 strict
    rw [toMoment?, layout, numeral]
    simp [read]
  | _ => cases strict

/-- A number of seconds is equivalent to a moment without a fraction at that second. -/
theorem equivalent_second {i : Int64} {m : Moment} (strict : a.toIntegerStrictly? = some i)
    (found : b.datetime? clock = some m) (calendar : b.InCalendar)
    (layout : a.readByLayout? clock = none) (whole : m.nano = 0) (same : m.second = i.toInt) :
    a.equivalent clock b = .yes := by
  obtain ⟨number, momentB⟩ := datetime?_eq_some found
  have range := inRange_toMoment? calendar momentB
  rw [Moment.InRange, same] at range
  have momentA := toMoment?_of_strict strict layout
  rw [Clock.ofSeconds?_whole range] at momentA
  rw [equivalent_comm]
  exact (equivalent_iff_of_commonType (commonType?_of_moments number momentB momentA)).2
    ⟨m, _, momentB, momentA, same, whole⟩

namespace KeyForm

/-- The values with a form that are equivalent to nothing. -/
def isUndecided (v : Value) : KeyForm → Bool
  | nothing => !v.isNull
  | number f => f.isNaN
  | _ => false

theorem isUndecided_eq {x : KeyForm} (h : x.Of clock v) : v.isUndecided = x.isUndecided v := by
  cases x with
  | nothing =>
    obtain rfl | rfl := h
    · rfl
    · rfl
  | integer i => cases v <;> first | rfl | cases h
  | number f =>
    obtain ⟨strict, float⟩ := h
    cases v with
    | float g =>
      cases float
      rfl
    | nan s =>
      cases float
      have strange : notANumber.isNaN = true := by decide
      exact strange.symm
    | text s => exact (isNaN_toFloat?_text float).symm
    | integer i => cases strict
    | _ => cases float
  | moment m =>
    obtain ⟨number, found⟩ := datetime?_eq_some h
    cases v with
    | truth t => cases found
    | _ => first | rfl | cases number
  | boolean t =>
    obtain ⟨number, -, boolean⟩ := h
    cases v with
    | truth u => cases u <;> first | rfl | cases boolean
    | _ => first | rfl | cases number
  | text s =>
    obtain ⟨rfl, -⟩ := h
    rfl

/-- Values with one float are equivalent, as integers if the float is whole. -/
theorem equivalent_of_number_form (ha : (number f).Of clock a) (hb : (number f).Of clock b) :
    a.equivalent clock b = if f.isNaN then .unknown else .yes := by
  have integers : a.toInteger? = wholeFloat? f ∧ b.toInteger? = wholeFloat? f := by
    rw [toInteger?_eq, toInteger?_eq, ha.1, ha.2, hb.1, hb.2]
    exact ⟨rfl, rfl⟩
  by_cases strange : f.isNaN = true
  · rw [if_pos strange]
    rw [wholeFloat?_of_isNaN strange] at integers
    exact equivalent_of_isNaN strange integers.1 ha.2 hb.2
  · rw [if_neg strange]
    cases whole : wholeFloat? f with
    | some i =>
      rw [whole] at integers
      exact (equivalent_iff_of_commonType (commonType?_of_integers integers.1 integers.2)).2
        ⟨i, i, integers.1, integers.2, rfl⟩
    | none =>
      rw [whole] at integers
      rw [Bool.not_eq_true] at strange
      exact (equivalent_iff_of_commonType (commonType?_of_floats integers.1 ha.2 hb.2)).2
        ⟨f, f, ha.2, hb.2, beq_iff_place.2 ⟨strange, strange, rfl⟩⟩

/-- Values with one form are equivalent, unless that is undecided. -/
theorem equivalent_of_form {x : KeyForm} (ha : x.Of clock a) (hb : x.Of clock b) :
    a.equivalent clock b = if x.isUndecided a || x.isUndecided b then .unknown else .yes := by
  cases x with
  | nothing => obtain rfl | rfl := ha <;> obtain rfl | rfl := hb <;> rfl
  | integer i =>
    have sameA := toInteger?_of_strict ha
    have sameB := toInteger?_of_strict hb
    exact (equivalent_iff_of_commonType (commonType?_of_integers sameA sameB)).2
      ⟨i, i, sameA, sameB, rfl⟩
  | number f =>
    simp only [isUndecided, Bool.or_self]
    exact equivalent_of_number_form ha hb
  | moment m =>
    obtain ⟨number, momentA⟩ := datetime?_eq_some ha
    obtain ⟨-, momentB⟩ := datetime?_eq_some hb
    exact (equivalent_iff_of_commonType (commonType?_of_moments number momentA momentB)).2
      ⟨m, m, momentA, momentB, rfl, rfl⟩
  | boolean t =>
    obtain ⟨number, moment, boolean⟩ := ha
    exact (equivalent_iff_of_commonType (commonType?_of_booleans number moment boolean hb.2.2)).2
      ⟨t, t, boolean, hb.2.2, rfl⟩
  | text s =>
    obtain ⟨rfl, number, moment, boolean⟩ := ha
    obtain ⟨rfl, -⟩ := hb
    exact (equivalent_iff_of_commonType (commonType?_of_texts number moment boolean)).2
      ⟨s, s, rfl, rfl, rfl⟩

/-- Values of alike forms are equivalent, unless that is undecided. A count of seconds denotes the
moment, unless a layout reads it as another one. -/
theorem equivalent_of_alike {x y : KeyForm} (alike : Alike x y) (ha : x.Of clock a)
    (hb : y.Of clock b) (calendarA : a.InCalendar) (calendarB : b.InCalendar)
    (layouts : ∀ m, x = moment m ∨ y = moment m →
      a.readByLayout? clock = none ∧ b.readByLayout? clock = none) :
    a.equivalent clock b = if x.isUndecided a || y.isUndecided b then .unknown else .yes := by
  cases alike with
  | refl x => exact equivalent_of_form ha hb
  | noNumber hf hg =>
    have integer : a.toInteger? = none := by
      rw [toInteger?_eq, ha.1, ha.2]
      exact wholeFloat?_of_isNaN hf
    simp only [isUndecided, hf, Bool.true_or, if_true]
    exact equivalent_of_isNaN hf integer ha.2 hb.2
  | texts same =>
    obtain ⟨rfl, number, moment, boolean⟩ := ha
    obtain ⟨rfl, -⟩ := hb
    exact (equivalent_iff_of_commonType (commonType?_of_texts number moment boolean)).2
      ⟨_, _, rfl, rfl, same⟩
  | moments hm hn same =>
    obtain ⟨number, momentA⟩ := datetime?_eq_some ha
    obtain ⟨-, momentB⟩ := datetime?_eq_some hb
    exact (equivalent_iff_of_commonType (commonType?_of_moments number momentA momentB)).2
      ⟨_, _, momentA, momentB, same, hm.trans hn.symm⟩
  | second whole same =>
    exact equivalent_second ha hb calendarB (layouts _ (.inr rfl)).1 whole same
  | count whole same =>
    rw [equivalent_comm]
    exact equivalent_second hb ha calendarA (layouts _ (.inl rfl)).2 whole same

end KeyForm

/-- Values with one key are equivalent, and undecided if one of them is equivalent to nothing,
unless one of them is a moment, no number, and that moment has a fraction of a second or a layout
reads a moment in a number. Where one of them is no number and both denote moments, they are equivalent
exactly if that is one point in time. -/
theorem equivalent_of_key_eq (calendarA : a.InCalendar) (calendarB : b.InCalendar)
    (same : a.key clock = b.key clock) :
    ((∀ m, a.datetime? clock = some m ∨ b.datetime? clock = some m →
        m.nano = 0 ∧ a.readByLayout? clock = none ∧ b.readByLayout? clock = none) →
      a.equivalent clock b = if a.isUndecided || b.isUndecided then .unknown else .yes) ∧
    ∀ m n, (a.isNumber && b.isNumber) = false → a.toMoment? clock = some m →
      b.toMoment? clock = some n →
      (a.equivalent clock b = .yes ↔ m.second = n.second ∧ m.nano = n.nano) := by
  have formA := KeyForm.of_ofValue clock a
  have formB := KeyForm.of_ofValue clock b
  rw [key_eq_tag_body, key_eq_tag_body] at same
  obtain ⟨tags, bodies⟩ := KeyForm.tag_append_inj same
  generalize KeyForm.ofValue clock a = x at *
  generalize KeyForm.ofValue clock b = y at *
  constructor
  · intro whole
    have moments (m : Moment) (h : x = .moment m ∨ y = .moment m) :
        a.datetime? clock = some m ∨ b.datetime? clock = some m := by
      obtain rfl | rfl := h
      · exact .inl formA
      · exact .inr formB
    have alike := KeyForm.alike_of_key (fun m h => (whole m (moments m h)).1) tags bodies
    rw [KeyForm.isUndecided_eq formA, KeyForm.isUndecided_eq formB]
    exact KeyForm.equivalent_of_alike alike formA formB calendarA calendarB
      fun m h => (whole m (moments m h)).2
  · intro m n number momentA momentB
    have common : commonType? clock a b = some .moment := by
      rw [Bool.and_eq_false_iff] at number
      obtain number | number := number
      · exact commonType?_of_moments number momentA momentB
      · have swapped := commonType?_of_moments number momentB momentA
        simpa only [commonType?, Bool.and_comm] using swapped
    rw [equivalent_iff_of_commonType common]
    simp [SameIn, momentA, momentB]

/-- The text `1704067200` has the key of the first second of 2024, and 1.5 has the key of the moment
that is one and a half seconds after the start of 1970. -/
theorem equivalent_of_key_eq_seconds :
    (text " 1704067200").equivalent {} (moment ⟨1704067200, 0, 3600⟩) = .yes ∧
      (moment ⟨1, 500000000, 0⟩).equivalent {} (float 1.5) = .yes := by
  constructor
  · refine ((equivalent_of_key_eq (by decide) (by decide) (by decide)).1 ?_).trans rfl
    have none : (text " 1704067200").datetime? {} = none := by decide
    rintro m (h | h)
    · rw [none] at h
      cases h
    · cases h
      decide
  · exact ((equivalent_of_key_eq (by decide) (by decide) (by decide)).2
      ⟨1, 500000000, 0⟩ ⟨1, 500000000, 0⟩ (by decide) rfl (by decide +kernel)).2 ⟨rfl, rfl⟩

/-- NULL has the key of the unknown truth, moments that are a nanosecond apart have one key, and so
have a moment and a text of digits that a layout reads as another one. -/
theorem key_eq_of_different :
    (null.key {} = (truth .unknown).key {} ∧ null.equivalent {} (truth .unknown) ≠ .yes) ∧
      ((moment ⟨1704067200, 1, 0⟩).key {} = (moment ⟨1704067200, 2, 0⟩).key {} ∧
        (moment ⟨1704067200, 1, 0⟩).equivalent {} (moment ⟨1704067200, 2, 0⟩) = .no) ∧
      ((text "20240101").key { layouts := ["%Y%m%d"] } =
          (moment ⟨20240101, 0, 0⟩).key { layouts := ["%Y%m%d"] } ∧
        (text "20240101").equivalent { layouts := ["%Y%m%d"] } (moment ⟨20240101, 0, 0⟩) = .no) :=
  by
  decide

end Value

end TableQuery
