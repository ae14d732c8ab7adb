import TableQuery.Proofs.Calendar.Days
import TableQuery.Proofs.Calendar.Range
import TableQuery.Proofs.Number.Printing
import TableQuery.Value.Basic

/-!
# Texts of moments are read back

A moment is written in the form of RFC 3339, with zeros in front of its numbers and as many digits
of the fraction as it needs. Each part is read again in front of what follows it, and the fields found
denote the moment: its date is that of its day, and second 60 is the leap second it was written for.
-/

namespace TableQuery.Calendar

open Number Text Moment

/-! ## Numbers -/

section

variable {width n : Nat} {rest : List Char}

theorem toList_padded (width n : Nat) : (padded width n).toList =
    List.replicate (width - (Nat.toDigits 10 n).length) '0' ++ Nat.toDigits 10 n :=
  String.toList_ofList

theorem isDigit_of_mem_padded_text : ∀ c ∈ (padded width n).toList, isDigit c = true := by
  rw [toList_padded]
  exact isDigit_of_mem_padded

theorem length_padded (positive : 0 < width) (small : n < 10 ^ width) :
    (padded width n).toList.length = width := by
  have digits := (Nat.length_toDigits_le_iff (b := 10) (by decide) positive).2 small
  rw [toList_padded, List.length_append, List.length_replicate]
  omega

theorem padded_ne_nil (width n : Nat) : (padded width n).toList ≠ [] := by
  rw [toList_padded]
  exact List.append_ne_nil_of_right_ne_nil _ Nat.toDigits_ne_nil

/-- A number with zeros in front is read again if no digit behind it can be taken for one of its. -/
theorem readNumber?_padded {least most : Nat} (positive : 0 < width) (small : n < 10 ^ width)
    (enough : least ≤ width) (room : width ≤ most) (narrow : width ≤ 9)
    (ends : width = most ∨ ∀ c ∈ rest.head?, isDigit c = false) :
    readNumber? least most ((padded width n).toList ++ rest) = some (n, rest) := by
  have length := length_padded positive small
  have digits : (((padded width n).toList ++ rest).takeWhile isDigit).take most =
      (padded width n).toList := by
    rw [List.takeWhile_append_of_pos isDigit_of_mem_padded_text]
    obtain rfl | ends := ends
    · rw [List.take_left' length]
    · rw [takeWhile_of_head? ends, List.append_nil, List.take_of_length_le (by omega)]
  have value : (padded width n).toList.foldl (fun n d => 10 * n + (d.toNat - '0'.toNat)) 0 = n := by
    rw [toList_padded]
    exact ofDigits_padded _ _
  have fits : n < pow2 63 := by
    have few : 10 ^ width ≤ 10 ^ 9 := Nat.pow_le_pow_right (by decide) narrow
    have many : 10 ^ 9 ≤ pow2 63 := by decide
    omega
  unfold readNumber?
  rw [digits]
  dsimp only
  rw [value, length, if_pos (by simp [enough, fits]), List.drop_left' length]

/-- A number of fixed width is read again in front of anything. -/
theorem readNumber?_fixed (positive : 0 < width) (small : n < 10 ^ width) (narrow : width ≤ 9)
    (rest : List Char) :
    readNumber? width width ((padded width n).toList ++ rest) = some (n, rest) :=
  readNumber?_padded positive small (Nat.le_refl _) (Nat.le_refl _) narrow (.inl rfl)

theorem readNumber?_two (small : n < 100) (rest : List Char) :
    readNumber? 2 2 ((padded 2 n).toList ++ rest) = some (n, rest) :=
  readNumber?_fixed (by decide) (by omega) (by decide) rest

/-! ## Fractions -/

theorem readFraction?_padded (positive : 0 < width) (small : n < 10 ^ width) (narrow : width ≤ 9)
    (ends : ∀ c ∈ rest.head?, isDigit c = false) :
    readFraction? ((padded width n).toList ++ rest) = some (n * pow10 (9 - width), rest) := by
  rw [readFraction?, readNumber?_padded positive small positive narrow narrow (.inr ends),
    Option.map_some]
  dsimp only
  rw [dropWhile_of_head? ends, List.length_append, length_padded positive small, Nat.add_sub_cancel]

/-- The nanoseconds that a text says: those of a whole second are not written. -/
def writtenFraction (nano : Nat) : Option Nat :=
  if nano = 0 then none else some nano

theorem writtenFraction_getD (nano : Nat) : (writtenFraction nano).getD 0 = nano := by
  unfold writtenFraction
  split_ifs with zero
  · exact zero.symm
  · rfl

/-- The fraction of a second is written as nothing, or as a point and digits that are read again. -/
theorem fractionText_spec {nano : Nat} (small : nano < 1000000000)
    (ends : ∀ c ∈ rest.head?, isDigit c = false) :
    writtenFraction nano = none ∧ (fractionText nano).toList = [] ∨
    writtenFraction nano = some nano ∧ ∃ ds, (fractionText nano).toList = '.' :: ds ∧
      readFraction? (ds ++ rest) = some (nano, rest) := by
  have digits {width n : Nat} (positive : 0 < width) (small : n < 10 ^ width) (narrow : width ≤ 9)
      (value : n * pow10 (9 - width) = nano) :
      ∃ ds, ("." ++ padded width n).toList = '.' :: ds ∧
        readFraction? (ds ++ rest) = some (nano, rest) := by
    refine ⟨(padded width n).toList, ?_, ?_⟩
    · rw [String.toList_append]
      rfl
    · rw [readFraction?_padded positive small narrow ends, value]
  have milli : pow10 (9 - 3) = 1000000 := rfl
  have micro : pow10 (9 - 6) = 1000 := rfl
  have whole : pow10 (9 - 9) = 1 := rfl
  unfold fractionText
  split_ifs with zero thousandths millionths
  · exact .inl ⟨if_pos (beq_iff_eq.1 zero), rfl⟩
  all_goals
    rw [beq_iff_eq] at zero thousandths
    refine .inr ⟨if_neg zero, ?_⟩
  · exact digits (by decide) (by omega) (by decide) (by rw [milli]; omega)
  · rw [beq_iff_eq] at millionths
    exact digits (by decide) (by omega) (by decide) (by rw [micro]; omega)
  · exact digits (by decide) small (by decide) (by rw [whole]; omega)

/-! ## Offsets -/

theorem readOffset?_signed (hours minutes : Nat) (day : hours < 100) (hour : minutes < 60) :
    readOffset? dropColon? true false
        ('+' :: ((padded 2 hours).toList ++ ':' :: (padded 2 minutes).toList)) =
      some ((hours * 3600 + minutes * 60 : Int), []) ∧
    readOffset? dropColon? true false
        ('-' :: ((padded 2 hours).toList ++ ':' :: (padded 2 minutes).toList)) =
      some (-(hours * 3600 + minutes * 60 : Int), []) := by
  have first := readNumber?_two day
  have last := readNumber?_two (n := minutes) (by omega) []
  rw [List.append_nil] at last
  constructor <;> simp [readOffset?, readSign?, readPair?, first, dropColon?, last, hour]

theorem offsetText_signed (offset : Int) :
    ∃ cs, (offsetText offset).toList = '+' :: cs ∨ (offsetText offset).toList = '-' :: cs := by
  unfold offsetText
  dsimp only
  split
  · exact ⟨_, .inr (by simp; rfl)⟩
  · exact ⟨_, .inl (by simp; rfl)⟩

/-- An offset of whole minutes is read again. -/
theorem readOffset?_offsetText {offset : Int} (minutes : offset % 60 = 0)
    (day : offset.natAbs < 86400) :
    readOffset? dropColon? true false (offsetText offset).toList = some (offset, []) := by
  obtain ⟨total, count⟩ : ∃ total, (offset.natAbs + 30) / 60 = total := ⟨_, rfl⟩
  have value : offset.natAbs = total * 60 := by omega
  obtain ⟨plus, minus⟩ := readOffset?_signed (total / 60) (total % 60) (by omega) (by omega)
  rw [offsetText, count]
  by_cases negative : offset < 0
  · have same : -(((total / 60 : Nat) : Int) * 3600 + ((total % 60 : Nat) : Int) * 60) = offset := by
      omega
    rw [same] at minus
    rw [← minus, if_pos negative]
    simp
  · have same : ((total / 60 : Nat) : Int) * 3600 + ((total % 60 : Nat) : Int) * 60 = offset := by
      omega
    rw [same] at plus
    rw [← plus, if_neg negative]
    simp

end

/-! ## Fields -/

/-- The number is the value of a field with these bounds. -/
theorem within?_natCast {low high n : Nat} (least : low ≤ n) (most : n ≤ high) :
    within? low high (n : Int) = some n := by
  simp [within?, least, most]

theorem narrow?_natCast {n : Nat} (small : n ≤ 9999) : narrow? (n : Int) = some (n : Int) := by
  have low : Int32.minValue.toInt = -2147483648 := rfl
  have high : Int32.maxValue.toInt = 2147483647 := rfl
  rw [narrow?, low, high, if_pos]
  rw [Bool.and_eq_true, decide_eq_true_iff, decide_eq_true_iff]
  omega

namespace Moment

/-- The day that the clock of the moment shows. -/
def localDay (m : Moment) : Int :=
  (m.second + m.offset) / 86400

/-- The second of the day that the clock of the moment shows. -/
def localSecond (m : Moment) : Nat :=
  ((m.second + m.offset) % 86400).toNat

/-- A moment that a clock in UTC shows (a leap second is the last of its minute, with a billion
nanoseconds or more), on a clock that is whole minutes and less than a day off, in a year of four
digits. -/
structure Writable (m : Moment) : Prop where
  shown : (wallClock? m.second m.nano).isSome
  zone : m.offset.natAbs < 86400
  minutes : m.offset % 60 = 0
  year : 0 ≤ yearOf m.localDay ∧ yearOf m.localDay ≤ 9999

instance (m : Moment) : Decidable m.Writable :=
  decidable_of_iff (((wallClock? m.second m.nano).isSome ∧ m.offset.natAbs < 86400) ∧
      m.offset % 60 = 0 ∧ 0 ≤ yearOf m.localDay ∧ yearOf m.localDay ≤ 9999)
    ⟨fun ⟨⟨shown, zone⟩, minutes, year⟩ => ⟨shown, zone, minutes, year⟩,
      fun h => ⟨⟨h.shown, h.zone⟩, h.minutes, h.year⟩⟩

/-- The fields that the text of the moment says. -/
def written (m : Moment) : Fields where
  year := some (yearOf m.localDay)
  month := some (monthDayOf m.localDay).1
  day := some (monthDayOf m.localDay).2
  half := some (m.localSecond / 3600 / 12)
  hourOfHalf := some (m.localSecond / 3600 % 12)
  minute := some (m.localSecond / 60 % 60)
  second := some (m.localSecond % 60 + m.nano / 1000000000)
  nanosecond := writtenFraction (m.nano % 1000000000)
  offset := some m.offset

variable {m : Moment}

theorem localSecond_lt (m : Moment) : m.localSecond < 86400 := by
  unfold localSecond
  omega

/-- The clock shows the time of the moment. -/
theorem seconds_local (m : Moment) : m.localDay * 86400 + m.localSecond = m.second + m.offset := by
  unfold localDay localSecond
  omega

theorem Writable.inCalendar (h : m.Writable) : m.InRange := by
  obtain ⟨w, shown⟩ := Option.isSome_iff_exists.1 h.shown
  exact (wallClock?_eq_some shown).1

/-- A leap second is the last one of its minute on every clock that is whole minutes off. -/
theorem Writable.leap (h : m.Writable) :
    m.nano < 1000000000 ∨ m.nano < 2000000000 ∧ m.localSecond % 60 = 59 := by
  obtain ⟨w, shown⟩ := Option.isSome_iff_exists.1 h.shown
  obtain ⟨-, small, leap, -⟩ := wallClock?_eq_some_iff.1 shown
  have minutes := h.minutes
  unfold localSecond
  omega

/-- The days of years of four digits may be written. -/
theorem Writable.inRange_localDay (h : m.Writable) : inRange m.localDay = true := by
  obtain ⟨low, high⟩ := h.year
  obtain ⟨first, last⟩ := yearOf_contains m.localDay
  have start := yearStart_near (yearOf m.localDay)
  have next := yearStart_near (yearOf m.localDay + 1)
  rw [inRange_iff]
  omega

theorem date_written (h : m.Writable) : m.written.date = .ok m.localDay := by
  have day : m.written.someDay = .ok m.localDay := by
    show orConflict (ofYearMonthDay? (yearOf m.localDay) (monthDayOf m.localDay).1
      (monthDayOf m.localDay).2) = _
    rw [ofYearMonthDay?_monthDayOf]
    rfl
  have agrees : m.written.yearMonthDayAgrees m.localDay = true := by
    simp [Fields.yearMonthDayAgrees, centuryAgrees, written]
  have weeks : m.written.isoWeekAgrees m.localDay = true := by
    simp [Fields.isoWeekAgrees, centuryAgrees, written]
  have ordinal : m.written.ordinalAgrees m.localDay = true := by
    simp [Fields.ordinalAgrees, written]
  have quarter : m.written.quarter = none := rfl
  simp [Fields.date, day, bind, Except.bind, h.inRange_localDay, agrees, weeks, ordinal, quarter]
  rfl

theorem time_written (h : m.Writable) : m.written.time = .ok (m.localSecond, m.nano) := by
  have leap := h.leap
  have t := m.localSecond_lt
  simp only [Fields.time, written, writtenFraction_getD]
  split <;> rename_i sixty <;> rw [beq_iff_eq] at sixty <;> congr 2 <;> omega

theorem moment?_written (h : m.Writable) : m.written.moment? = some m := by
  have clock : m.written.wallClock m.offset = .ok ⟨m.localDay, m.localSecond, m.nano⟩ := by
    rw [Fields.wallClock, date_written h, time_written h]
    rfl
  have second : WallClock.seconds ⟨m.localDay, m.localSecond, m.nano⟩ - m.offset = m.second := by
    have shown := m.seconds_local
    show m.localDay * 86400 + (m.localSecond : Int) - m.offset = m.second
    omega
  have at? : WallClock.at? ⟨m.localDay, m.localSecond, m.nano⟩ m.offset = some m := by
    rw [WallClock.at?, second]
    exact if_pos h.inCalendar
  have offset : m.written.offset = some m.offset := rfl
  rw [Fields.moment?, offset]
  simp [clock, Except.toOption, h.zone, at?]

end Moment

/-! ## Whole texts -/

/-- Date, time, fraction and offset of a text are its fields. -/
theorem readRfc3339?_parts {y mo d h mi s : Nat} {offset : Int} {fraction zone : List Char}
    {nano : Nat} (year : y ≤ 9999) (month : 1 ≤ mo ∧ mo ≤ 12) (day : 1 ≤ d ∧ d ≤ 31)
    (hour : h < 24) (minute : mi < 60) (second : s ≤ 60)
    (small : nano < 1000000000)
    (fractional : writtenFraction nano = none ∧ fraction = [] ∨ writtenFraction nano = some nano ∧
      ∃ ds, fraction = '.' :: ds ∧ readFraction? (ds ++ zone) = some (nano, zone))
    (signed : ∃ cs, zone = '+' :: cs ∨ zone = '-' :: cs)
    (away : readOffset? dropColon? true false zone = some (offset, []))
    (near : offset.natAbs < 86400) :
    readRfc3339? ((padded 4 y).toList ++ '-' :: ((padded 2 mo).toList ++ '-' ::
      ((padded 2 d).toList ++ 'T' :: ((padded 2 h).toList ++ ':' :: ((padded 2 mi).toList ++ ':' ::
      ((padded 2 s).toList ++ (fraction ++ zone))))))) =
    Fields.moment? {
      year := some (y : Int), month := some mo, day := some d, half := some (h / 12),
      hourOfHalf := some (h % 12), minute := some mi, second := some s,
      nanosecond := writtenFraction nano, offset := some offset } := by
  have years := readNumber?_fixed (n := y) (show 0 < 4 by decide) (by omega) (by decide)
  have months := readNumber?_two (n := mo) (by omega)
  have days := readNumber?_two (n := d) (by omega)
  have hours := readNumber?_two (n := h) (by omega)
  have minutes := readNumber?_two (n := mi) (by omega)
  have seconds := readNumber?_two (n := s) (by omega)
  have inYear := narrow?_natCast year
  have inMonth := within?_natCast month.1 month.2
  have inDay := within?_natCast day.1 day.2
  have inHour := within?_natCast (Nat.zero_le h) (Nat.le_of_lt_succ hour)
  have inMinute := within?_natCast (Nat.zero_le mi) (Nat.le_of_lt_succ minute)
  have inSecond := within?_natCast (Nat.zero_le s) second
  have inFraction := within?_natCast (Nat.zero_le nano) (Nat.le_of_lt_succ small)
  unfold readRfc3339?
  obtain ⟨unwritten, rfl⟩ | ⟨said, ds, rfl, digits⟩ := fractional
  · obtain ⟨cs, rfl | rfl⟩ := signed <;>
      simp [years, months, days, hours, minutes, seconds, Fields.set?, Fields.setMonth?,
        Fields.setHalf?, Fields.setOffset?, settle?, inYear, inMonth, inDay, inHour, inMinute,
        inSecond, unwritten, away, near]
  · simp [years, months, days, hours, minutes, seconds, Fields.set?, Fields.setMonth?,
      Fields.setHalf?, Fields.setOffset?, settle?, inYear, inMonth, inDay, inHour, inMinute,
      inSecond, said, digits, inFraction, away, near]

namespace Moment

variable {m : Moment}

theorem toList_text (h : m.Writable) : m.text.toList =
    (padded 4 (yearOf m.localDay).toNat).toList ++ '-' ::
      ((padded 2 (monthDayOf m.localDay).1).toList ++ '-' ::
      ((padded 2 (monthDayOf m.localDay).2).toList ++ 'T' ::
      ((padded 2 (m.localSecond / 3600)).toList ++ ':' ::
      ((padded 2 (m.localSecond / 60 % 60)).toList ++ ':' ::
      ((padded 2 (m.localSecond % 60 + m.nano / 1000000000)).toList ++
      ((fractionText (m.nano % 1000000000)).toList ++ (offsetText m.offset).toList)))))) := by
  have year : yearText (yearOf m.localDay) = padded 4 (yearOf m.localDay).toNat := by
    rw [yearText, if_pos (by simp [h.year])]
  rw [← year]
  simp [text, localDay, localSecond]

/-- The text of a moment is read as the moment. -/
theorem readRfc3339?_text (h : m.Writable) : readRfc3339? m.text.toList = some m := by
  obtain ⟨low, high⟩ := h.year
  obtain ⟨month, december, day, last⟩ := monthDayOf_bounds m.localDay
  have second := m.localSecond_lt
  have leap := h.leap
  have signed := offsetText_signed m.offset
  have ends : ∀ c ∈ (offsetText m.offset).toList.head?, isDigit c = false := by
    obtain ⟨cs, plus | minus⟩ := signed
    · rw [plus]; rintro c ⟨⟩; rfl
    · rw [minus]; rintro c ⟨⟩; rfl
  have small := Nat.mod_lt m.nano (show 0 < 1000000000 by decide)
  have fraction := fractionText_spec small ends
  have zone := readOffset?_offsetText h.minutes h.zone
  rw [toList_text h, readRfc3339?_parts (by omega) ⟨month, december⟩ ⟨day, last⟩ (by omega)
    (by omega) (by omega) small fraction signed zone h.zone, Int.toNat_of_nonneg low]
  exact moment?_written h

end Moment

/-! ## Reading values -/

/-- A text that is blank at neither end is not trimmed. -/
theorem trimChars_eq {cs : List Char} (first : ∀ c ∈ cs.head?, isBlank c = false)
    (last : ∀ c ∈ cs.getLast?, isBlank c = false) : trimChars cs = cs := by
  have start : trimStart cs = cs := dropWhile_of_head? first
  have final : trimStart cs.reverse = cs.reverse :=
    dropWhile_of_head? (by rwa [List.head?_reverse])
  rw [trimChars, start, final, List.reverse_reverse]

theorem length_le_utf8ByteSize (cs : List Char) : cs.length ≤ (String.ofList cs).utf8ByteSize := by
  induction cs with
  | nil => exact Nat.zero_le _
  | cons c cs ih =>
    have one := c.utf8Size_pos
    rw [String.ofList_cons, String.utf8ByteSize_append, String.utf8ByteSize_singleton,
      List.length_cons]
    omega

/-- The text of a moment starts and ends with a digit. -/
theorem Moment.isDigit_ends {m : Moment} (h : m.Writable) :
    (∃ c ∈ m.text.toList.head?, isDigit c = true) ∧
      ∀ c ∈ m.text.toList.getLast?, isDigit c = true := by
  constructor
  · obtain ⟨c, cs, year⟩ := List.exists_cons_of_ne_nil (padded_ne_nil 4 (yearOf m.localDay).toNat)
    refine ⟨c, ?_, isDigit_of_mem_padded_text c (by rw [year]; exact List.mem_cons_self)⟩
    rw [toList_text h, year]
    rfl
  · obtain ⟨front, minutes, split⟩ : ∃ front minutes,
        m.text.toList = front ++ (padded 2 minutes).toList :=
      ⟨_, _, by rw [text, offsetText, ← String.append_assoc, String.toList_append]⟩
    intro c hc
    rw [split, List.getLast?_append_of_ne_nil _ (padded_ne_nil 2 minutes)] at hc
    exact isDigit_of_mem_padded_text c (List.mem_of_getLast? hc)

theorem Moment.length_text {m : Moment} (h : m.Writable) : 8 ≤ m.text.toList.length := by
  obtain ⟨low, high⟩ := h.year
  obtain ⟨-, december, -, last⟩ := monthDayOf_bounds m.localDay
  have year := length_padded (n := (yearOf m.localDay).toNat) (show 0 < 4 by decide) (by omega)
  have month := length_padded (n := (monthDayOf m.localDay).1) (show 0 < 2 by decide) (by omega)
  have day := length_padded (n := (monthDayOf m.localDay).2) (show 0 < 2 by decide) (by omega)
  rw [toList_text h]
  simp only [List.length_append, List.length_cons, year, month, day]
  omega

/-- A clock without layouts of a user reads the text that shows a moment as the moment. -/
theorem moment_text_reads_back (clock : Clock) (m : Moment) (own : clock.layouts = [])
    (writable : m.Writable) : clock.read? (Value.moment m).display = some m := by
  obtain ⟨⟨c, head, digit⟩, last⟩ := Moment.isDigit_ends writable
  have trimmed : trimChars m.text.toList = m.text.toList := by
    refine trimChars_eq (fun d hd => ?_) fun d hd => isBlank_of_isDigit (last d hd)
    rw [Option.mem_unique hd head]
    exact isBlank_of_isDigit digit
  have user : clock.readByUserLayouts? m.text.toList = none := by
    rw [Clock.readByUserLayouts?, own]
    rfl
  have long := (Moment.length_text writable).trans (length_le_utf8ByteSize _)
  have first : m.text.toList.head?.any isDigit = true := by
    rw [Option.mem_def.1 head]
    exact digit
  have read : ¬(decide ((String.ofList m.text.toList).utf8ByteSize < 8) ||
      !m.text.toList.head?.any isDigit) = true := by
    rw [first, Bool.not_true, Bool.or_false, decide_eq_true_iff]
    omega
  show clock.read? m.text = some m
  rw [Clock.read?, trimmed, user]
  dsimp only
  rw [if_neg read, Moment.readRfc3339?_text writable]

/-- The middle of a leap second at the turn of a year, on a clock nine hours ahead. -/
theorem moment_text_reads_back_leap :
    let m : Moment := ⟨1483228799, 1500000000, 32400⟩
    m.Writable ∧ (Value.moment m).display = "2017-01-01T08:59:60.500+09:00" ∧
      Clock.read? {} "2017-01-01T08:59:60.500+09:00" = some m := by
  intro m
  have writable : m.Writable := by decide +kernel
  have display : (Value.moment m).display = "2017-01-01T08:59:60.500+09:00" := by decide +kernel
  have read := moment_text_reads_back {} m rfl writable
  rw [display] at read
  exact ⟨writable, display, read⟩

end TableQuery.Calendar
