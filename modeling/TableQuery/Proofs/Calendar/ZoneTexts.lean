import Mathlib
import TableQuery.Config.Engine
import TableQuery.Number.Decimal
import TableQuery.Proofs.Text.Upper

/-!
# Texts of zones

A zone is written as a word in any case or as an offset, a sign with two digits of hours and two of
minutes that one colon may divide. All these texts are read as what they say. More texts are read:
colons may stand anywhere behind the sign, and minutes may be more than 59 as long as the offset is
less than a day. All others are refused.
-/

namespace TableQuery.Calendar.Zone

open Number Text

variable {cs hh mm rest : List Char} {sign : Char} {zone other : Zone} {s word : String}

/-! ## Offsets -/

/-- Two digits. -/
structure IsPair (cs : List Char) : Prop where
  length : cs.length = 2
  digits : ∀ c ∈ cs, isDigit c = true

/-- The seconds of hours and minutes behind a sign. -/
def signed (sign : Char) (hours minutes : ℕ) : ℤ :=
  if sign = '-' then -(hours * 3600 + minutes * 60 : ℤ) else hours * 3600 + minutes * 60

/-- The texts that say which zone they mean. -/
inductive Spells : List Char → Zone → Prop
  | utc {cs : List Char} {word : String} (mem : word ∈ ["", "UTC", "Z"])
    (same : sameIgnoringCase (String.ofList cs) word = true) : Spells cs utc
  | here {cs : List Char} (same : sameIgnoringCase (String.ofList cs) "LOCAL" = true) :
    Spells cs .local
  | offset {sign : Char} {hh mm rest : List Char} (mark : sign = '+' ∨ sign = '-')
    (hours : IsPair hh) (minutes : IsPair mm) (divided : rest = hh ++ mm ∨ rest = hh ++ ':' :: mm)
    (day : ofDigits hh ≤ 23) (hour : ofDigits mm ≤ 59) :
    Spells (sign :: rest) (fixed (signed sign (ofDigits hh) (ofDigits mm)))

/-- The other texts that are read: with colons in other places, or with more minutes than an hour
has. -/
inductive Slips : List Char → Zone → Prop
  | offset {sign : Char} {hh mm rest : List Char} (mark : sign = '+' ∨ sign = '-')
    (hours : IsPair hh) (minutes : IsPair mm) (digits : rest.filter (· != ':') = hh ++ mm)
    (day : ofDigits hh * 60 + ofDigits mm < 1440)
    (slip : 59 < ofDigits mm ∨ rest ≠ hh ++ mm ∧ rest ≠ hh ++ ':' :: mm) :
    Slips (sign :: rest) (fixed (signed sign (ofDigits hh) (ofDigits mm)))

theorem natAbs_signed (sign : Char) (hours minutes : ℕ) :
    (signed sign hours minutes).natAbs = hours * 3600 + minutes * 60 := by
  unfold signed
  split <;> omega

theorem IsPair.exists_digits (h : IsPair cs) :
    ∃ a b, cs = [a, b] ∧ isDigit a = true ∧ isDigit b = true := by
  obtain ⟨a, b, rfl⟩ := List.length_eq_two.1 h.length
  exact ⟨a, b, rfl, h.digits a (by simp), h.digits b (by simp)⟩

theorem isPair_iff {a b : Char} : IsPair [a, b] ↔ isDigit a = true ∧ isDigit b = true := by
  constructor
  · intro h
    exact ⟨h.digits a (by simp), h.digits b (by simp)⟩
  · rintro ⟨ha, hb⟩
    exact ⟨rfl, by simp [ha, hb]⟩

theorem isDigit_range {c : Char} (h : isDigit c = true) : '0'.toNat ≤ c.toNat ∧ c.toNat < 128 := by
  unfold isDigit Char.isDigit at h
  rw [Bool.and_eq_true, decide_eq_true_eq, decide_eq_true_eq] at h
  have low := UInt32.le_iff_toNat_le.mp h.1
  have high := UInt32.le_iff_toNat_le.mp h.2
  exact ⟨low, Nat.lt_of_le_of_lt high (by decide)⟩

theorem ofDigits_pair {a b : Char} (ha : isDigit a = true) (hb : isDigit b = true) :
    (ofDigits [a, b] : ℤ) = 10 * (a.toNat - '0'.toNat) + (b.toNat - '0'.toNat) := by
  have low := (isDigit_range ha).1
  have low' := (isDigit_range hb).1
  simp only [ofDigits, List.foldl]
  omega

theorem IsPair.ne_colon (h : IsPair cs) : ∀ c ∈ cs, (c != ':') = true := by
  intro c hc
  rw [bne_iff_ne]
  rintro rfl
  have digit := h.digits ':' hc
  revert digit
  decide

theorem filter_pair (h : IsPair cs) : cs.filter (· != ':') = cs :=
  List.filter_eq_self.2 h.ne_colon

/-- An offset is two pairs of digits once the colons are taken out. -/
theorem parseOffset?_eq_some_iff {o : ℤ} : parseOffset? cs = some o ↔
    ∃ hh mm, IsPair hh ∧ IsPair mm ∧ cs.filter (· != ':') = hh ++ mm ∧
      o = ofDigits hh * 3600 + ofDigits mm * 60 := by
  unfold parseOffset?
  constructor
  · intro h
    split at h
    · rename_i a b c d digits
      split at h
      · rename_i all
        simp only [List.all_cons, List.all_nil, Bool.and_true, Bool.and_eq_true] at all
        obtain ⟨ha, hb, hc, hd⟩ := all
        refine ⟨[a, b], [c, d], isPair_iff.2 ⟨ha, hb⟩, isPair_iff.2 ⟨hc, hd⟩, digits, ?_⟩
        rw [ofDigits_pair ha hb, ofDigits_pair hc hd]
        exact (Option.some.inj h).symm
      · cases h
    · cases h
  · rintro ⟨hh, mm, hours, minutes, digits, rfl⟩
    obtain ⟨a, b, rfl, ha, hb⟩ := hours.exists_digits
    obtain ⟨c, d, rfl, hc, hd⟩ := minutes.exists_digits
    rw [digits, ofDigits_pair ha hb, ofDigits_pair hc hd]
    simp [ha, hb, hc, hd]

/-! ## Words -/

/-- The words for zones. -/
def words : List String :=
  ["", "UTC", "Z", "LOCAL"]

theorem words_plain (mem : word ∈ words) :
    (∀ c ∈ word.toList, isForeign c = false) ∧ upper word = word := by
  simp only [words, List.mem_cons, List.not_mem_nil, or_false] at mem
  rcases mem with rfl | rfl | rfl | rfl <;> exact ⟨by simp <;> decide, rfl⟩

/-- A word is the upper case of the texts that are the word in any case. -/
theorem upper_eq_iff (mem : word ∈ words) : upper s = word ↔ sameIgnoringCase s word = true := by
  obtain ⟨plain, own⟩ := words_plain mem
  constructor
  · intro h
    exact sameIgnoringCase_of_upper h plain
  · intro h
    rw [upper_of_sameIgnoringCase h, own]

/-- No word starts with a sign. -/
theorem not_word_of_sign (mark : sign = '+' ∨ sign = '-') (mem : word ∈ words) :
    sameIgnoringCase (String.ofList (sign :: rest)) word = false := by
  rw [← Bool.not_eq_true, sameIgnoringCase_iff, String.toList_ofList, List.map_cons]
  simp only [words, List.mem_cons, List.not_mem_nil, or_false] at mem
  rcases mark with rfl | rfl <;> rcases mem with rfl | rfl | rfl | rfl <;> simp

/-- The zone that a word names. -/
def ofWord? (cs : List Char) : Option Zone :=
  if ["", "UTC", "Z"].any (sameIgnoringCase (String.ofList cs)) then some utc
  else if sameIgnoringCase (String.ofList cs) "LOCAL" then some .local
  else none

/-- The offset that a text without words is read as, in seconds. -/
def signedOffset? : List Char → Option ℤ
  | '+' :: rest => parseOffset? rest
  | '-' :: rest => (parseOffset? rest).map (-·)
  | _ => none

/-- The zone with an offset of less than a day. -/
def fixed? (o : ℤ) : Option Zone :=
  if o.natAbs < 86400 then some (fixed o) else none

/-- A text is a word or an offset. -/
theorem parse?_eq (s : String) : parse? s = (ofWord? (trimChars s.toList)).or
    ((signedOffset? (trimChars s.toList)).bind fixed?) := by
  unfold parse? ofWord?
  generalize trimChars s.toList = cs
  have empty := @upper_eq_iff (String.ofList cs) "" (by simp [words])
  have utc := @upper_eq_iff (String.ofList cs) "UTC" (by simp [words])
  have z := @upper_eq_iff (String.ofList cs) "Z" (by simp [words])
  have here := @upper_eq_iff (String.ofList cs) "LOCAL" (by simp [words])
  simp only [List.any_cons, List.any_nil, Bool.or_false, Bool.or_eq_true, ← empty, ← utc, ← z, ← here]
  generalize upper (String.ofList cs) = word
  split
  · rfl
  · rfl
  · rfl
  · rfl
  · rename_i noUtc noZ noEmpty noLocal
    rw [if_neg (not_or.2 ⟨noEmpty, not_or.2 ⟨noUtc, noZ⟩⟩), if_neg noLocal]
    rfl

/-- No text is a word for two zones. -/
theorem ofWord?_eq_some_iff : ofWord? cs = some zone ↔
    (∃ word ∈ ["", "UTC", "Z"], sameIgnoringCase (String.ofList cs) word = true) ∧ zone = utc ∨
      sameIgnoringCase (String.ofList cs) "LOCAL" = true ∧ zone = .local := by
  unfold ofWord?
  rw [← List.any_eq_true]
  split
  · rename_i named
    obtain ⟨word, mem, same⟩ := List.any_eq_true.1 named
    have other : sameIgnoringCase (String.ofList cs) "LOCAL" = false := by
      -- a text has one upper case, and the words are four
      rw [← Bool.not_eq_true, ← upper_eq_iff (by simp [words]), upper_of_sameIgnoringCase same]
      simp only [List.mem_cons, List.not_mem_nil, or_false] at mem
      rcases mem with rfl | rfl | rfl <;> decide
    simp only [named, other, Option.some.injEq, @eq_comm _ utc, true_and, Bool.false_eq_true,
      false_and, or_false]
  · rename_i unnamed
    split <;> simp_all only [Option.some.injEq, @eq_comm _ Zone.local, reduceCtorEq, true_and,
      false_and, false_or]

theorem ofWord?_of_sign (mark : sign = '+' ∨ sign = '-') : ofWord? (sign :: rest) = none := by
  rw [Option.eq_none_iff_forall_ne_some]
  intro zone named
  rcases ofWord?_eq_some_iff.1 named with ⟨⟨word, mem, same⟩, -⟩ | ⟨same, -⟩
  · rw [not_word_of_sign mark (List.mem_of_mem_take (i := 3) mem)] at same
    cases same
  · rw [not_word_of_sign mark (by simp [words])] at same
    cases same

/-! ## All texts -/

/-- What follows a sign is read if it is an offset of less than a day once the colons are taken
out. -/
theorem signedOffset?_eq_some_iff {o : ℤ} (mark : sign = '+' ∨ sign = '-') :
    signedOffset? (sign :: rest) = some o ↔
      ∃ hh mm, IsPair hh ∧ IsPair mm ∧ rest.filter (· != ':') = hh ++ mm ∧
        o = signed sign (ofDigits hh) (ofDigits mm) := by
  rcases mark with rfl | rfl
  · simp [signedOffset?, parseOffset?_eq_some_iff, signed]
  · have minus : signedOffset? ('-' :: rest) = (parseOffset? rest).map (-·) := rfl
    rw [minus, Option.map_eq_some_iff]
    constructor
    · rintro ⟨o, read, rfl⟩
      obtain ⟨hh, mm, hours, minutes, digits, rfl⟩ := parseOffset?_eq_some_iff.1 read
      exact ⟨hh, mm, hours, minutes, digits, rfl⟩
    · rintro ⟨hh, mm, hours, minutes, digits, rfl⟩
      exact ⟨_, parseOffset?_eq_some_iff.2 ⟨hh, mm, hours, minutes, digits, rfl⟩, rfl⟩

/-- What follows a sign says what it means if it is two pairs that one colon may divide. -/
theorem Spells.exists_pairs (spelled : Spells (sign :: rest) zone) (mark : sign = '+' ∨ sign = '-') :
    ∃ hh mm, IsPair hh ∧ IsPair mm ∧ (rest = hh ++ mm ∨ rest = hh ++ ':' :: mm) ∧
      ofDigits hh ≤ 23 ∧ ofDigits mm ≤ 59 ∧
      zone = fixed (signed sign (ofDigits hh) (ofDigits mm)) := by
  cases spelled with
  | @utc _ word mem same =>
    rw [not_word_of_sign mark (List.mem_of_mem_take (i := 3) mem)] at same
    cases same
  | here same =>
    rw [not_word_of_sign mark (by simp [words])] at same
    cases same
  | @offset _ hh mm _ _ hours minutes divided day hour =>
    exact ⟨hh, mm, hours, minutes, divided, day, hour, rfl⟩

theorem filter_divided (hours : IsPair hh) (minutes : IsPair mm)
    (divided : rest = hh ++ mm ∨ rest = hh ++ ':' :: mm) : rest.filter (· != ':') = hh ++ mm := by
  rcases divided with rfl | rfl <;> simp [filter_pair hours, filter_pair minutes]

/-- An offset of less than a day either says what it means or slips through. -/
theorem spells_or_slips_iff (mark : sign = '+' ∨ sign = '-') :
    Spells (sign :: rest) zone ∨ Slips (sign :: rest) zone ↔
      ∃ hh mm, IsPair hh ∧ IsPair mm ∧ rest.filter (· != ':') = hh ++ mm ∧
        ofDigits hh * 60 + ofDigits mm < 1440 ∧
        zone = fixed (signed sign (ofDigits hh) (ofDigits mm)) := by
  constructor
  · rintro (spelled | slipped)
    · obtain ⟨hh, mm, hours, minutes, divided, day, hour, rfl⟩ := spelled.exists_pairs mark
      exact ⟨hh, mm, hours, minutes, filter_divided hours minutes divided, by omega, rfl⟩
    · cases slipped with
      | @offset _ hh mm _ _ hours minutes digits day slip =>
        exact ⟨hh, mm, hours, minutes, digits, day, rfl⟩
  · rintro ⟨hh, mm, hours, minutes, digits, day, rfl⟩
    by_cases plain : ofDigits mm ≤ 59 ∧ (rest = hh ++ mm ∨ rest = hh ++ ':' :: mm)
    · exact .inl (.offset mark hours minutes plain.2 (by omega) plain.1)
    · refine .inr (.offset mark hours minutes digits day ?_)
      rwa [not_and_or, not_le, not_or] at plain

/-- What says which zone it means does not slip through. -/
theorem Spells.not_slips (spelled : Spells cs zone) : ¬ Slips cs other := by
  intro slipped
  cases slipped with
  | @offset sign hh' mm' rest mark hours' minutes' digits' day' slip =>
    obtain ⟨hh, mm, hours, minutes, divided, day, hour, -⟩ := spelled.exists_pairs mark
    have digits := filter_divided hours minutes divided
    obtain ⟨rfl, rfl⟩ := List.append_inj (digits.symm.trans digits')
      (hours.length.trans hours'.length.symm)
    rcases slip with late | ⟨whole, cut⟩
    · omega
    · exact divided.elim whole cut

/-- A text without a sign says which zone it means by a word or not at all. -/
theorem ofWord?_eq_some_iff_of_unsigned
    (unsigned : ¬ ∃ sign rest, cs = sign :: rest ∧ (sign = '+' ∨ sign = '-')) :
    ofWord? cs = some zone ↔ Spells cs zone ∨ Slips cs zone := by
  rw [ofWord?_eq_some_iff]
  constructor
  · rintro (⟨⟨word, mem, same⟩, rfl⟩ | ⟨same, rfl⟩)
    · exact .inl (.utc mem same)
    · exact .inl (.here same)
  · rintro (spelled | slipped)
    · cases spelled with
      | @utc _ word mem same => exact .inl ⟨⟨word, mem, same⟩, rfl⟩
      | here same => exact .inr ⟨same, rfl⟩
      | offset mark => exact absurd ⟨_, _, rfl, mark⟩ unsigned
    · cases slipped with
      | offset mark => exact absurd ⟨_, _, rfl, mark⟩ unsigned

theorem signedOffset?_of_unsigned
    (unsigned : ¬ ∃ sign rest, cs = sign :: rest ∧ (sign = '+' ∨ sign = '-')) :
    signedOffset? cs = none := by
  unfold signedOffset?
  split
  · exact absurd ⟨_, _, rfl, .inl rfl⟩ unsigned
  · exact absurd ⟨_, _, rfl, .inr rfl⟩ unsigned
  · rfl

theorem fixed?_signed (hours minutes : ℕ) : fixed? (signed sign hours minutes) = some zone ↔
    hours * 60 + minutes < 1440 ∧ zone = fixed (signed sign hours minutes) := by
  have day : (signed sign hours minutes).natAbs < 86400 ↔ hours * 60 + minutes < 1440 := by
    rw [natAbs_signed]
    omega
  unfold fixed?
  split
  · rename_i small
    simp [day.1 small, eq_comm]
  · rename_i large
    simp [mt day.2 large]

/-- A text is read exactly if it says which zone it means or slips through. -/
theorem parse?_eq_some_iff : parse? s = some zone ↔
    Spells (trimChars s.toList) zone ∨ Slips (trimChars s.toList) zone := by
  rw [parse?_eq]
  generalize trimChars s.toList = cs
  by_cases marked : ∃ sign rest, cs = sign :: rest ∧ (sign = '+' ∨ sign = '-')
  · obtain ⟨sign, rest, rfl, mark⟩ := marked
    rw [ofWord?_of_sign mark, Option.none_or, spells_or_slips_iff mark, Option.bind_eq_some_iff]
    constructor
    · rintro ⟨o, read, small⟩
      obtain ⟨hh, mm, hours, minutes, digits, rfl⟩ := (signedOffset?_eq_some_iff mark).1 read
      exact ⟨hh, mm, hours, minutes, digits, (fixed?_signed _ _).1 small⟩
    · rintro ⟨hh, mm, hours, minutes, digits, small⟩
      exact ⟨_, (signedOffset?_eq_some_iff mark).2 ⟨hh, mm, hours, minutes, digits, rfl⟩,
        (fixed?_signed _ _).2 small⟩
  · rw [signedOffset?_of_unsigned marked, Option.bind_none, Option.or_none,
      ofWord?_eq_some_iff_of_unsigned marked]

/-! ## Bytes -/

/-- The bytes of a text. -/
def bytes (cs : List Char) : List UInt8 :=
  cs.flatMap String.utf8EncodeChar

/-- Cuts a text behind so many bytes. No cut runs through a character or lies behind the end. -/
def cutAt? : ℕ → List Char → Option (List Char × List Char)
  | 0, cs => some ([], cs)
  | _ + 1, [] => none
  | n + 1, c :: cs =>
    if c.utf8Size ≤ n + 1 then
      (cutAt? (n + 1 - c.utf8Size) cs).map fun (before, behind) => (c :: before, behind)
    else none

/-- The zone that the digits of an offset denote. The digits are counted in bytes. There is no answer
if they are cut at no place between characters. -/
def offsetByBytes? (sign : ℤ) (rest : List Char) : Option (Option Zone) :=
  let digits := rest.filter (· != ':')
  if (bytes digits).length != 4 || !digits.all isDigit then
    some none
  else
    (cutAt? 2 digits).map fun (hh, mm) => fixed? (sign * (ofDigits hh * 3600 + ofDigits mm * 60))

/-- Reads an offset by its first byte and what lies behind it. There is no answer if the text has no
byte. -/
def signedByBytes? (cs : List Char) : Option (Option Zone) :=
  (bytes cs)[0]?.bind fun first =>
    if first = 0x2B then (cutAt? 1 cs).bind fun (_, rest) => offsetByBytes? 1 rest
    else if first = 0x2D then (cutAt? 1 cs).bind fun (_, rest) => offsetByBytes? (-1) rest
    else some none

/-- Reads a zone by the bytes of its text. There is no answer if a byte is read or a cut is made
where none is. -/
def readByBytes? (s : String) : Option (Option Zone) :=
  let cs := trimChars s.toList
  match ofWord? cs with
  | some zone => some (some zone)
  | none => signedByBytes? cs

/-- The first byte of a text is a byte of ASCII only if the character is in ASCII, too. -/
theorem first_byte_eq_iff {c : Char} (ascii : sign.toNat < 128) :
    (bytes (c :: cs))[0]? = some (UInt8.ofNat sign.toNat) ↔ c = sign := by
  have same : c = sign ↔ c.toNat = sign.toNat := Char.toNat_inj.symm
  have value : c.val.toNat = c.toNat := rfl
  rw [bytes, List.flatMap_cons, String.utf8EncodeChar, same]
  simp only [value]
  -- longer characters start with a byte from 192 on
  split_ifs <;> simp [← UInt8.toNat_inj] <;> omega

theorem utf8Size_of_ascii {c : Char} (ascii : c.toNat < 128) : c.utf8Size = 1 := by
  rw [Char.utf8Size_eq_one_iff, UInt32.le_iff_toNat_le]
  exact Nat.le_of_lt_succ ascii

theorem length_bytes (ascii : ∀ c ∈ cs, c.toNat < 128) : (bytes cs).length = cs.length := by
  unfold bytes
  induction cs with
  | nil => rfl
  | cons c cs ih =>
    rw [List.forall_mem_cons] at ascii
    rw [List.flatMap_cons, List.length_append, String.length_utf8EncodeChar,
      utf8Size_of_ascii ascii.1, ih ascii.2, List.length_cons, Nat.add_comm]

/-- Behind characters of ASCII a text can be cut. -/
theorem cutAt?_append (ascii : ∀ c ∈ cs, c.toNat < 128) (rest : List Char) :
    cutAt? cs.length (cs ++ rest) = some (cs, rest) := by
  induction cs with
  | nil => cases rest <;> rfl
  | cons c cs ih =>
    rw [List.forall_mem_cons] at ascii
    simp [cutAt?, utf8Size_of_ascii ascii.1, ih ascii.2]

theorem IsPair.ascii (h : IsPair cs) : ∀ c ∈ cs, c.toNat < 128 :=
  fun c hc => (isDigit_range (h.digits c hc)).2

/-- The digits of an offset are cut between characters. -/
theorem offsetByBytes?_eq (sign : ℤ) (rest : List Char) : offsetByBytes? sign rest =
    some (((parseOffset? rest).map (sign * ·)).bind fixed?) := by
  unfold offsetByBytes?
  cases read : parseOffset? rest with
  | some o =>
    obtain ⟨hh, mm, hours, minutes, digits, rfl⟩ := parseOffset?_eq_some_iff.1 read
    have ascii : ∀ c ∈ hh ++ mm, c.toNat < 128 := List.forall_mem_append.2 ⟨hours.ascii, minutes.ascii⟩
    have all : (hh ++ mm).all isDigit = true :=
      List.all_eq_true.2 (List.forall_mem_append.2 ⟨hours.digits, minutes.digits⟩)
    have cut : cutAt? 2 (hh ++ mm) = some (hh, mm) := hours.length ▸ cutAt?_append hours.ascii mm
    simp [digits, length_bytes ascii, all, cut, hours.length, minutes.length]
  | none =>
    -- four bytes that are digits are two pairs
    rw [if_pos]
    · rfl
    · by_contra both
      simp only [Bool.or_eq_true, not_or, bne_iff_ne, ne_eq, not_not, Bool.not_eq_true',
        Bool.not_eq_false, List.all_eq_true] at both
      obtain ⟨size, all⟩ := both
      rw [length_bytes fun c hc => (isDigit_range (all c hc)).2] at size
      have pairs := List.take_append_drop 2 (rest.filter (· != ':'))
      have hours : IsPair ((rest.filter (· != ':')).take 2) :=
        ⟨by simp [size], fun c hc => all c (List.mem_of_mem_take hc)⟩
      have minutes : IsPair ((rest.filter (· != ':')).drop 2) :=
        ⟨by simp [size], fun c hc => all c (List.mem_of_mem_drop hc)⟩
      rw [parseOffset?_eq_some_iff.2 ⟨_, _, hours, minutes, pairs.symm, rfl⟩] at read
      cases read

/-- A text that is not empty has a first byte, and behind a sign it can be cut. -/
theorem signedByBytes?_eq (nonempty : cs ≠ []) :
    signedByBytes? cs = some ((signedOffset? cs).bind fixed?) := by
  obtain ⟨c, rest, rfl⟩ := List.exists_cons_of_ne_nil nonempty
  have plus : (bytes (c :: rest))[0]? = some 0x2B ↔ c = '+' :=
    @first_byte_eq_iff rest '+' c (by decide)
  have minus : (bytes (c :: rest))[0]? = some 0x2D ↔ c = '-' :=
    @first_byte_eq_iff rest '-' c (by decide)
  have cut (ascii : c.toNat < 128) : cutAt? 1 (c :: rest) = some ([c], rest) :=
    @cutAt?_append [c] (List.forall_mem_singleton.2 ascii) rest
  unfold signedByBytes?
  cases first : (bytes (c :: rest))[0]? with
  | none =>
    rw [List.getElem?_eq_none_iff, bytes, List.flatMap_cons, List.length_append,
      String.length_utf8EncodeChar] at first
    have one := c.utf8Size_pos
    omega
  | some b =>
    rw [first, Option.some.injEq] at plus minus
    rw [Option.bind_some]
    by_cases isPlus : c = '+'
    · subst isPlus
      rw [if_pos (plus.2 rfl), cut (by decide), Option.bind_some]
      dsimp only
      rw [offsetByBytes?_eq]
      simp [signedOffset?]
    · rw [if_neg (mt plus.1 isPlus)]
      by_cases isMinus : c = '-'
      · subst isMinus
        rw [if_pos (minus.2 rfl), cut (by decide), Option.bind_some]
        dsimp only
        rw [offsetByBytes?_eq]
        simp [signedOffset?]
      · rw [if_neg (mt minus.1 isMinus)]
        simp [signedOffset?, isPlus, isMinus]

/-- No byte is read and no cut is made where none is. -/
theorem readByBytes?_eq (s : String) : readByBytes? s = some (parse? s) := by
  rw [parse?_eq]
  unfold readByBytes?
  generalize trimChars s.toList = cs
  dsimp only
  cases word : ofWord? cs with
  | some zone => rfl
  | none =>
    -- the empty text is a word
    have nonempty : cs ≠ [] := by
      rintro rfl
      cases word
    rw [signedByBytes?_eq nonempty, Option.none_or]

end TableQuery.Calendar.Zone

namespace TableQuery

open Calendar Calendar.Zone Number Text

/-- The zone of the settings is read from bytes and between characters that are there. A text denotes
a zone if it says which one it means or slips through, and all other texts are refused. So exactly the
texts that say what they mean are accepted, apart from those that slip through. -/
theorem zone_of_text (c : EngineConfig) :
    readByBytes? c.timezone = some (parse? c.timezone) ∧
      (∀ zone, c.zone = .ok zone ↔
        Spells (trimChars c.timezone.toList) zone ∨ Slips (trimChars c.timezone.toList) zone) ∧
      (∀ e, c.zone = .error e ↔ e = .unknownZone c.timezone ∧
        ∀ zone, ¬ Spells (trimChars c.timezone.toList) zone ∧
          ¬ Slips (trimChars c.timezone.toList) zone) ∧
      (((∃ zone, c.zone = .ok zone) ↔ ∃ zone, Spells (trimChars c.timezone.toList) zone) ↔
        ∀ zone, ¬ Slips (trimChars c.timezone.toList) zone) := by
  have reads (zone : Zone) := @parse?_eq_some_iff zone c.timezone
  have distinct {zone other : Zone} :=
    @Spells.not_slips (trimChars c.timezone.toList) zone other
  have accepted (zone : Zone) : c.zone = .ok zone ↔ parse? c.timezone = some zone := by
    unfold EngineConfig.zone
    cases parse? c.timezone <;> simp
  have refused (e : QueryError) :
      c.zone = .error e ↔ e = .unknownZone c.timezone ∧ parse? c.timezone = none := by
    unfold EngineConfig.zone
    cases parse? c.timezone <;> simp [eq_comm]
  refine ⟨readByBytes?_eq c.timezone, ?_, ?_, ?_⟩
  · intro zone
    rw [accepted, reads]
  · intro e
    rw [refused, Option.eq_none_iff_forall_ne_some]
    simp only [ne_eq, reads, not_or]
  · simp only [accepted, reads]
    constructor
    · intro same zone slipped
      obtain ⟨other, spelled⟩ := same.1 ⟨zone, .inr slipped⟩
      exact distinct spelled slipped
    · intro none
      simp only [none, or_false]

/-- The sixtieth minute slips through. -/
theorem zone_of_text_slipped :
    Slips "+0960".toList (fixed 36000) ∧ Spells "-09:30".toList (fixed (-34200)) ∧
      EngineConfig.zone ⟨none, [], " +0960", none⟩ = .ok (fixed 36000) ∧
      EngineConfig.zone ⟨none, [], "-09:30", none⟩ = .ok (fixed (-34200)) := by
  have hours : IsPair ['0', '9'] := isPair_iff.2 ⟨rfl, rfl⟩
  have slipped : Slips "+0960".toList (fixed 36000) :=
    @Slips.offset '+' _ ['6', '0'] _ (.inl rfl) hours (isPair_iff.2 ⟨rfl, rfl⟩) rfl (by decide)
      (.inl (by decide))
  have spelled : Spells "-09:30".toList (fixed (-34200)) :=
    @Spells.offset '-' _ ['3', '0'] _ (.inr rfl) hours (isPair_iff.2 ⟨rfl, rfl⟩) (.inr rfl) (by decide)
      (by decide)
  refine ⟨slipped, spelled, ?_, ?_⟩
  · exact ((zone_of_text ⟨none, [], " +0960", none⟩).2.1 _).2 (.inr slipped)
  · exact ((zone_of_text ⟨none, [], "-09:30", none⟩).2.1 _).2 (.inl spelled)

end TableQuery
