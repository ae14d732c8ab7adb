import Mathlib.Data.List.Basic
import TableQuery.Text.Case

/-!
# Words in upper case

Upper case maps some characters beyond ASCII to letters of ASCII: the dotless `ı` to `I`, the long
`ſ` to `S`, and sharp s and ligatures to runs of `F`, `I`, `L`, `S` and `T`. So a name whose upper
case is an ASCII word without `F`, `I` and `S` is that word up to the case of its letters. Names that
differ in the case of ASCII letters only have one upper case; names beyond ASCII may share it and
differ in more. What is in upper case stays as it is: no target of the tables has another upper
case. A text may get longer in upper case, but not shorter.
-/

namespace TableQuery.Text

/-- A character that belongs to no word of ASCII without `F`, `I` and `S`. -/
def isForeign (c : Char) : Bool :=
  128 ≤ c.toNat || c == 'F' || c == 'I' || c == 'S'

theorem isForeign_ofNat {n : Nat} (hn : n.isValidChar) (h : 128 ≤ n) :
    isForeign (Char.ofNat n) = true := by
  have value : (Char.ofNat n).toNat = n := by
    rw [Char.ofNat, dif_pos hn]
    rfl
  rw [isForeign, value, decide_eq_true h]
  rfl

set_option maxRecDepth 4000 in
/-- Every run stays beyond ASCII, except for the two letters with an ASCII letter as upper case. -/
theorem upperRuns_targets : ∀ r ∈ upperRuns,
    (128 ≤ r.target ∧ r.target + (r.last - r.first) < 0xD800 ∨
      0xDFFF < r.target ∧ r.target + (r.last - r.first) < 0x110000) ∨
      r.first = r.last ∧ (r.target = 0x49 ∨ r.target = 0x53) := by
  decide

/-- Every longer mapping has a character that no word without `F`, `I` and `S` has. -/
theorem upperLong_foreign :
    ∀ entry ∈ upperLong, ∃ n ∈ entry.2, isForeign (Char.ofNat n) = true := by
  decide

/-- The upper case of a character beyond ASCII is not made of plain letters of ASCII. -/
theorem exists_foreign_of_upperChar {c : Char} (hc : 128 ≤ c.toNat) :
    ∃ d ∈ upperChar c, isForeign d = true := by
  rw [upperChar, if_neg (Nat.not_lt.mpr hc), mapCase]
  cases hr : upperRuns.findSome? fun r => r.map? c.toNat with
  | some n =>
    refine ⟨_, List.mem_singleton_self _, ?_⟩
    obtain ⟨r, hmem, hmap⟩ := List.exists_of_findSome?_eq_some hr
    rw [CaseRun.map?] at hmap
    split at hmap
    · rename_i inside
      cases hmap
      simp only [Bool.and_eq_true, decide_eq_true_eq] at inside
      obtain ⟨⟨above, below⟩, -⟩ := inside
      obtain target | ⟨single, letter⟩ := upperRuns_targets r hmem
      · refine isForeign_ofNat ?_ (by omega)
        rw [Nat.isValidChar]
        omega
      · -- the run is one character, so its target is the letter
        rw [show r.target + (c.toNat - r.first) = r.target by omega]
        obtain letter | letter := letter <;> rw [letter] <;> rfl
    · cases hmap
  | none =>
    cases hl : upperLong.lookup c.toNat with
    | some ns =>
      obtain ⟨before, after, split, -⟩ := List.lookup_eq_some_iff.mp hl
      obtain ⟨n, hn, foreign⟩ := upperLong_foreign (c.toNat, ns) (by rw [split]; simp)
      exact ⟨_, List.mem_map_of_mem hn, foreign⟩
    | none =>
      refine ⟨c, List.mem_singleton_self c, ?_⟩
      rw [isForeign, decide_eq_true hc]
      rfl

/-- No character is lost in upper case. -/
theorem upperChar_ne_nil (c : Char) : upperChar c ≠ [] := by
  by_cases small : c.toNat < 128
  · rw [upperChar, if_pos small]
    exact List.cons_ne_nil _ _
  · obtain ⟨d, hd, -⟩ := exists_foreign_of_upperChar (Nat.not_lt.mp small)
    exact List.ne_nil_of_mem hd

theorem toLower_toUpper {c : Char} (hc : c.toNat < 128) : c.toUpper.toLower = c.toLower := by
  have all : ∀ n < 128, (Char.ofNat n).toUpper.toLower = (Char.ofNat n).toLower := by decide
  have same := all c.toNat hc
  rwa [Char.ofNat_toNat] at same

/-- A text of ASCII characters and its upper case differ in the case of letters only. -/
theorem map_toLower_upper {s : String} (ascii : ∀ c ∈ s.toList, c.toNat < 128) :
    (upper s).toList.map Char.toLower = s.toList.map Char.toLower := by
  have each : s.toList.flatMap upperChar = s.toList.map Char.toUpper := by
    rw [List.map_eq_flatMap]
    exact List.flatMap_congr fun c hc => if_pos (ascii c hc)
  rw [upper, String.toList_ofList, each, List.map_map]
  exact List.map_congr_left fun c hc => toLower_toUpper (ascii c hc)

/-- Names with the same plain word as upper case differ in the case of letters only. -/
theorem sameIgnoringCase_of_upper {name word : String} (h : upper name = word)
    (plain : ∀ c ∈ word.toList, isForeign c = false) : sameIgnoringCase name word = true := by
  subst h
  rw [upper, String.toList_ofList] at plain
  have ascii : ∀ c ∈ name.toList, c.toNat < 128 := by
    intro c hc
    by_contra large
    obtain ⟨d, hd, foreign⟩ := exists_foreign_of_upperChar (Nat.not_lt.mp large)
    rw [plain d (List.mem_flatMap.mpr ⟨c, hc, hd⟩)] at foreign
    cases foreign
  rw [sameIgnoringCase, beq_iff_eq, map_toLower_upper ascii]

/-! ## Names in either case -/

theorem toLower_of_not_upper {c : Char} (h : c.toNat < 0x41 ∨ 0x5A < c.toNat) : c.toLower = c := by
  unfold Char.toLower
  rw [dif_neg]
  rintro ⟨low, high⟩
  have low : 0x41 ≤ c.toNat := UInt32.le_iff_toNat_le.mp low
  have high : c.toNat ≤ 0x5A := UInt32.le_iff_toNat_le.mp high
  omega

/-- The case of an ASCII letter does not show in upper case. -/
theorem upperChar_toLower (c : Char) : upperChar c.toLower = upperChar c := by
  by_cases small : c.toNat < 128
  · have all : ∀ n < 128, upperChar (Char.ofNat n).toLower = upperChar (Char.ofNat n) := by decide
    have same := all c.toNat small
    rwa [Char.ofNat_toNat] at same
  · rw [toLower_of_not_upper (by omega)]

theorem sameIgnoringCase_iff {a b : String} :
    sameIgnoringCase a b = true ↔ a.toList.map Char.toLower = b.toList.map Char.toLower :=
  beq_iff_eq

theorem sameIgnoringCase_refl (a : String) : sameIgnoringCase a a = true :=
  beq_self_eq_true _

theorem sameIgnoringCase_symm {a b : String} (h : sameIgnoringCase a b = true) :
    sameIgnoringCase b a = true :=
  beq_iff_eq.mpr (beq_iff_eq.mp h).symm

theorem sameIgnoringCase_trans {a b c : String} (hab : sameIgnoringCase a b = true)
    (hbc : sameIgnoringCase b c = true) : sameIgnoringCase a c = true :=
  beq_iff_eq.mpr ((beq_iff_eq.mp hab).trans (beq_iff_eq.mp hbc))

theorem sameIgnoringCase_comm (a b : String) : sameIgnoringCase a b = sameIgnoringCase b a :=
  Bool.eq_iff_iff.mpr ⟨sameIgnoringCase_symm, sameIgnoringCase_symm⟩

/-- Names that differ in the case of ASCII letters only are compared alike with every other name. -/
theorem sameIgnoringCase_congr {a b : String} (h : sameIgnoringCase a b = true) (s : String) :
    sameIgnoringCase s a = sameIgnoringCase s b := by
  rw [sameIgnoringCase, sameIgnoringCase, sameIgnoringCase_iff.1 h]

/-- Names that differ in the case of ASCII letters only have the same upper case. -/
theorem upper_of_sameIgnoringCase {a b : String} (h : sameIgnoringCase a b = true) :
    upper a = upper b := by
  have lowered (s : String) :
      upper s = String.ofList ((s.toList.map Char.toLower).flatMap upperChar) := by
    rw [upper, List.flatMap_map]
    simp only [upperChar_toLower]
  rw [lowered, lowered, sameIgnoringCase_iff.1 h]

/-- For names of ASCII characters the two comparisons are one. -/
theorem sameIgnoringCase_of_ascii {a b : String} (ha : ∀ c ∈ a.toList, c.toNat < 128)
    (hb : ∀ c ∈ b.toList, c.toNat < 128) (h : upper a = upper b) : sameIgnoringCase a b = true := by
  rw [sameIgnoringCase_iff, ← map_toLower_upper ha, ← map_toLower_upper hb, h]

/-! ## Upper case twice -/

/-- Whether no character of the range, whose neighbours are `step` apart, has another upper case. -/
def staysUpper (low high step : Nat) : Bool :=
  (Nat.blt high 0x61 || Nat.blt 0x7A low) &&
    (upperRuns.all fun r => Nat.blt high r.first || Nat.blt r.last low ||
      ((step == 2 || low == high) && r.step == 2 && (low + r.first) % 2 == 1)) &&
    upperLong.all fun entry => Nat.blt high entry.1 || Nat.blt entry.1 low

/-- The targets of a run have no other upper case. -/
theorem staysUpper_run : (upperRuns.all fun r =>
    staysUpper r.target (r.target + (r.last - r.first)) r.step) = true := by
  decide +kernel

theorem staysUpper_long :
    (upperLong.all fun entry => entry.2.all fun n => staysUpper n n 1) = true := by
  decide +kernel

theorem toUpper_of_not_lower {c : Char} (h : c.toNat < 0x61 ∨ 0x7A < c.toNat) : c.toUpper = c := by
  unfold Char.toUpper
  rw [dif_neg]
  rintro ⟨low, high⟩
  have low : 0x61 ≤ c.toNat := UInt32.le_iff_toNat_le.mp low
  have high : c.toNat ≤ 0x7A := UInt32.le_iff_toNat_le.mp high
  omega

theorem upperChar_of_stays {low high step : Nat} {c : Char} (h : staysUpper low high step = true)
    (above : low ≤ c.toNat) (below : c.toNat ≤ high) (steps : (c.toNat - low) % step = 0) :
    upperChar c = [c] := by
  simp only [staysUpper, Bool.and_eq_true, Bool.or_eq_true, Nat.blt_eq, List.all_eq_true,
    beq_iff_eq] at h
  obtain ⟨⟨ascii, runs⟩, long⟩ := h
  rw [upperChar]
  split
  · rw [toUpper_of_not_lower (by omega)]
  · have noRun : upperRuns.findSome? (·.map? c.toNat) = none := by
      refine List.findSome?_eq_none_iff.2 fun r hr => if_neg ?_
      simp only [Bool.and_eq_true, decide_eq_true_eq, beq_iff_eq]
      rintro ⟨⟨first, last⟩, place⟩
      obtain (outside | outside) | ⟨⟨two | single, two'⟩, odd⟩ := runs r hr
      · omega
      · omega
      · rw [two] at steps
        rw [two'] at place
        omega
      · rw [two'] at place
        omega
    have noLong : upperLong.lookup c.toNat = none := by
      refine List.lookup_eq_none_iff.2 fun entry he => ?_
      have outside := long entry he
      rw [bne_iff_ne]
      omega
    rw [mapCase, noRun, noLong]

/-- The upper case of a character is in upper case. -/
theorem upperChar_of_mem {c d : Char} (h : d ∈ upperChar c) : upperChar d = [d] := by
  have fixed {low high step n : Nat} (stays : staysUpper low high step = true) (above : low ≤ n)
      (below : n ≤ high) (steps : (n - low) % step = 0) :
      upperChar (Char.ofNat n) = [Char.ofNat n] := by
    by_cases valid : n.isValidChar
    · have value : (Char.ofNat n).toNat = n := by
        rw [Char.ofNat, dif_pos valid]
        rfl
      exact upperChar_of_stays stays (by rwa [value]) (by rwa [value]) (by rwa [value])
    · rw [Char.ofNat, dif_neg valid]
      decide
  by_cases small : c.toNat < 128
  · have ascii : ∀ n < 128, upperChar (Char.ofNat n).toUpper = [(Char.ofNat n).toUpper] := by decide
    rw [upperChar, if_pos small, List.mem_singleton] at h
    have same := ascii c.toNat small
    rwa [Char.ofNat_toNat, ← h] at same
  · have whole : upperChar c = mapCase upperRuns upperLong c := if_neg small
    rw [whole, mapCase] at h
    cases hr : upperRuns.findSome? fun r => r.map? c.toNat with
    | some n =>
      rw [hr, List.mem_singleton] at h
      obtain ⟨r, hmem, hmap⟩ := List.exists_of_findSome?_eq_some hr
      have stays := List.all_eq_true.1 staysUpper_run r hmem
      rw [CaseRun.map?] at hmap
      split at hmap
      · rename_i inside
        cases hmap
        simp only [Bool.and_eq_true, decide_eq_true_eq, beq_iff_eq] at inside
        rw [h]
        exact fixed stays (by omega) (by omega) (by rw [Nat.add_sub_cancel_left]; exact inside.2)
      · cases hmap
    | none =>
      rw [hr] at h
      cases hl : upperLong.lookup c.toNat with
      | some ns =>
        rw [hl] at h
        obtain ⟨n, hn, rfl⟩ := List.mem_map.1 h
        obtain ⟨before, after, split, -⟩ := List.lookup_eq_some_iff.mp hl
        have entries := List.all_eq_true.1 staysUpper_long (c.toNat, ns) (by rw [split]; simp)
        have stays := List.all_eq_true.1 entries n hn
        exact fixed stays (Nat.le_refl n) (Nat.le_refl n) (by rw [Nat.sub_self])
      | none =>
        rw [hl, List.mem_singleton] at h
        rw [h, whole, mapCase, hr, hl]

theorem upper_upper (s : String) : upper (upper s) = upper s := by
  unfold upper
  rw [String.toList_ofList, List.flatMap_assoc]
  refine congrArg String.ofList (List.flatMap_congr fun c _ => ?_)
  have each : (upperChar c).flatMap upperChar = (upperChar c).flatMap fun d => [d] :=
    List.flatMap_congr fun d hd => upperChar_of_mem hd
  rw [each, List.flatMap_singleton']

/-! ## The length of a text in upper case -/

theorem length_upper (s : String) : (upper s).length = (s.toList.flatMap upperChar).length := by
  rw [upper, String.length_ofList]

/-- Upper case does not shorten a text, and keeps its length exactly if it keeps that of every
character. -/
theorem length_le_length_upper (s : String) :
    s.length ≤ (upper s).length ∧
      ((upper s).length = s.length ↔ ∀ c ∈ s.toList, (upperChar c).length = 1) := by
  rw [length_upper, ← String.length_toList]
  induction s.toList with
  | nil => simp
  | cons c cs ih =>
    obtain ⟨longer, same⟩ := ih
    have one := List.length_pos_iff.mpr (upperChar_ne_nil c)
    rw [List.flatMap_cons, List.length_append, List.length_cons, List.forall_mem_cons, ← same]
    omega

end TableQuery.Text
