import Mathlib
import TableQuery.Calendar.Zone

/-!
# Moments lie in the calendar

The date of a moment in UTC is one that may be written. Every moment that is read from a text or
counted in seconds since 1970 has such a date.
-/

namespace TableQuery.Calendar

/-- The date of the moment in UTC may be written. -/
def Moment.InRange (m : Moment) : Prop :=
  inRange (m.second / 86400) = true

instance (m : Moment) : Decidable m.InRange :=
  inferInstanceAs (Decidable (_ = true))

variable {clock : Clock} {w : WallClock} {m : Moment} {seconds offset : ℤ} {nano : ℕ}

/-- The days that dates may have. -/
theorem inRange_iff {day : ℤ} : inRange day = true ↔ -96465292 ≤ day ∧ day < 95026237 := by
  have first : yearStart firstYear = -96465292 := by decide
  have last : yearStart (lastYear + 1) = 95026237 := by decide
  rw [inRange, Bool.and_eq_true, decide_eq_true_iff, decide_eq_true_iff, first, last]

/-- The seconds of a moment are few enough to be told apart as doubles. -/
theorem Moment.InRange.natAbs_lt (range : m.InRange) : m.second.natAbs < 2 ^ 53 := by
  rw [InRange, inRange_iff] at range
  omega

/-! ## Seconds since 1970 -/

theorem seconds_wallClock (seconds : ℤ) (nano : ℕ) :
    WallClock.seconds ⟨seconds / 86400, (seconds % 86400).toNat, nano⟩ = seconds := by
  show seconds / 86400 * 86400 + ((seconds % 86400).toNat : ℤ) = seconds
  omega

/-- A clock shows a billion nanoseconds or more only in the last second of a minute. -/
theorem wallClock?_eq_some_iff : wallClock? seconds nano = some w ↔
    inRange (seconds / 86400) = true ∧ nano < 2000000000 ∧
      (nano < 1000000000 ∨ seconds % 60 = 59) ∧
      w = ⟨seconds / 86400, (seconds % 86400).toNat, nano⟩ := by
  have last : (seconds % 86400).toNat % 60 = 59 ↔ seconds % 60 = 59 := by omega
  unfold wallClock?
  dsimp only
  rw [Option.ite_none_right_eq_some, Option.some.injEq, Bool.and_eq_true, Bool.and_eq_true,
    Bool.or_eq_true, decide_eq_true_iff, decide_eq_true_iff, beq_iff_eq, last, and_assoc, and_assoc,
    eq_comm (a := w)]

theorem wallClock?_eq_some (h : wallClock? seconds nano = some w) :
    inRange (seconds / 86400) = true ∧ w.seconds = seconds := by
  obtain ⟨range, -, -, rfl⟩ := wallClock?_eq_some_iff.1 h
  exact ⟨range, seconds_wallClock seconds nano⟩

/-- A count of whole seconds in the calendar is a moment. -/
theorem wallClock?_whole (h : inRange (seconds / 86400) = true) :
    ∃ w, wallClock? seconds 0 = some w ∧ w.seconds = seconds :=
  ⟨_, wallClock?_eq_some_iff.2 ⟨h, by decide, .inl (by decide), rfl⟩, seconds_wallClock seconds 0⟩

namespace Clock

/-- The moment of a number of seconds. -/
theorem ofSeconds?_eq_some (h : clock.ofSeconds? seconds nano = some m) :
    m.InRange ∧ m.second = seconds ∧ m.nano = nano := by
  obtain ⟨w, found, rfl⟩ := Option.map_eq_some_iff.1 h
  obtain ⟨range, same⟩ := wallClock?_eq_some found
  rw [Moment.InRange]
  exact ⟨by rwa [same], same, rfl⟩

theorem ofSeconds?_whole (h : inRange (seconds / 86400) = true) :
    clock.ofSeconds? seconds 0 = some ⟨seconds, 0, clock.zone.offset⟩ := by
  obtain ⟨w, found, same⟩ := wallClock?_whole h
  rw [ofSeconds?, found, Option.map_some, same]

end Clock

/-! ## Texts -/

theorem WallClock.inRange_at? (h : w.at? offset = some m) : m.InRange := by
  unfold at? at h
  dsimp only at h
  split at h
  · rename_i accepted
    cases h
    exact accepted
  · cases h

theorem Fields.inRange_moment? {p : Fields} (h : p.moment? = some m) : m.InRange := by
  unfold moment? at h
  obtain ⟨offset, -, h⟩ := Option.bind_eq_some_iff.1 h
  obtain ⟨w, -, h⟩ := Option.bind_eq_some_iff.1 h
  split at h
  · exact w.inRange_at? h
  · cases h

namespace Clock

theorem inRange_momentOf? {p : Fields} (h : clock.momentOf? p = some m) : m.InRange := by
  unfold momentOf? at h
  split at h
  · rename_i own
    cases h
    exact Fields.inRange_moment? own
  · split at h
    · exact WallClock.inRange_at? h
    · split at h
      · exact WallClock.inRange_at? h
      · cases h

theorem inRange_readByUserLayouts? {cs : List Char} (h : clock.readByUserLayouts? cs = some m) :
    m.InRange := by
  obtain ⟨layout, -, read⟩ := List.exists_of_findSome?_eq_some h
  obtain ⟨p, -, found⟩ := Option.bind_eq_some_iff.1 read
  exact inRange_momentOf? found

theorem inRange_readByOwnLayouts? {cs : List Char} (h : clock.readByOwnLayouts? cs = some m) :
    m.InRange := by
  unfold readByOwnLayouts? at h
  split at h
  · rename_i offset
    cases h
    obtain ⟨layout, -, read⟩ := List.exists_of_findSome?_eq_some offset
    obtain ⟨p, -, found⟩ := Option.bind_eq_some_iff.1 read
    exact Fields.inRange_moment? found
  · dsimp only at h
    split at h
    · exact WallClock.inRange_at? h
    · exact WallClock.inRange_at? h
    · cases h

theorem inRange_readRfc3339? {cs : List Char} (h : readRfc3339? cs = some m) : m.InRange := by
  -- whatever the fraction, the offset and the fields read before decide
  have offset (s : ReadState) (h : ((readOffset? dropColon? true false s.2).bind fun read =>
      if read.2.isEmpty && read.1.natAbs < 86400 then
        (s.1.setOffset? read.1).bind fun fields => fields.moment?
      else none) = some m) : m.InRange := by
    obtain ⟨read, -, h⟩ := Option.bind_eq_some_iff.1 h
    split at h
    · obtain ⟨p, -, h⟩ := Option.bind_eq_some_iff.1 h
      exact Fields.inRange_moment? h
    · cases h
  unfold readRfc3339? at h
  obtain ⟨date, -, h⟩ := Option.bind_eq_some_iff.1 h
  obtain ⟨time, -, h⟩ := Option.bind_eq_some_iff.1 h
  split at h
  · obtain ⟨fraction, -, h⟩ := Option.bind_eq_some_iff.1 h
    obtain ⟨p, -, h⟩ := Option.bind_eq_some_iff.1 h
    exact offset _ h
  · exact offset _ h

/-- A text that is read as a moment denotes one of the calendar. -/
theorem inRange_read? {s : String} (h : clock.read? s = some m) : m.InRange := by
  unfold read? at h
  dsimp only at h
  split at h
  · rename_i user
    cases h
    exact inRange_readByUserLayouts? user
  · split at h
    · cases h
    · split at h
      · rename_i rfc
        cases h
        exact inRange_readRfc3339? rfc
      · exact inRange_readByOwnLayouts? h

end Clock

end TableQuery.Calendar
