import Mathlib.Data.List.Basic
import TableQuery.Function.Scalar
import TableQuery.Value.Like
import TableQuery.Proofs.Text.Upper

/-!
# What patterns stand for

The matcher of `LIKE` finds out whether the pattern stands for the text. It forgets all but the last
`%` that it passed: between two `%` each part took one character, so whatever an earlier `%` could
still take, the last one can take as well.
-/

namespace TableQuery

open Calendar Text

theorem Truth.ofBool_eq_yes_iff {b : Bool} : Truth.ofBool b = .yes ↔ b = true := by
  cases b <;> decide

theorem Truth.ofBool_eq_no_iff {b : Bool} : Truth.ofBool b = .no ↔ ¬b = true := by
  cases b <;> decide

namespace Pattern

/-! ## Patterns and their parts -/

/-- A character that a backslash makes stand for itself. -/
def isSpecial (c : Char) : Bool :=
  c == '%' || c == '_' || c == '\\'

/-- The pattern stands for the text. -/
inductive Denotes : List Char → List Char → Prop
  | empty : Denotes [] []
  | escaped {c : Char} {p t : List Char} (special : isSpecial c = true) :
      Denotes p t → Denotes ('\\' :: c :: p) (c :: t)
  | backslash {p t : List Char} (alone : ∀ c ∈ p.head?, isSpecial c = false) :
      Denotes p t → Denotes ('\\' :: p) ('\\' :: t)
  | anyText {p t : List Char} (taken : List Char) : Denotes p t → Denotes ('%' :: p) (taken ++ t)
  | anyChar {p t : List Char} (c : Char) : Denotes p t → Denotes ('_' :: p) (c :: t)
  | itself {c : Char} {p t : List Char} (plain : isSpecial c = false) :
      Denotes p t → Denotes (c :: p) (c :: t)

/-- The parts, one after the other, stand for the text. -/
inductive Fits : List PatternItem → List Char → Prop
  | nil : Fits [] []
  | one {p : PatternItem} {c : Char} {ps : List PatternItem} {cs : List Char}
      (fits : p.fits c = true) : Fits ps cs → Fits (p :: ps) (c :: cs)
  | any {ps : List PatternItem} {cs : List Char} (taken : List Char) :
      Fits ps cs → Fits (.anyText :: ps) (taken ++ cs)

section

variable {p : PatternItem} {ps : List PatternItem} {t : List Char}

theorem fits_nil_iff : Fits [] t ↔ t = [] := by
  constructor
  · rintro ⟨⟩
    rfl
  · rintro rfl
    exact .nil

/-- A part other than `%` takes one character. -/
theorem fits_one_iff (single : p ≠ .anyText) :
    Fits (p :: ps) t ↔ ∃ c cs, t = c :: cs ∧ p.fits c = true ∧ Fits ps cs := by
  constructor
  · rintro (_ | ⟨fits, rest⟩ | _)
    · exact ⟨_, _, rfl, fits, rest⟩
    · exact absurd rfl single
  · rintro ⟨c, cs, rfl, fits, rest⟩
    exact .one fits rest

theorem fits_char_iff {c : Char} :
    Fits (.char c :: ps) t ↔ ∃ cs, t = c :: cs ∧ Fits ps cs := by
  rw [fits_one_iff (by simp)]
  constructor
  · rintro ⟨d, cs, rfl, same, rest⟩
    exact ⟨cs, by rw [beq_iff_eq.1 same], rest⟩
  · rintro ⟨cs, rfl, rest⟩
    exact ⟨c, cs, rfl, beq_self_eq_true c, rest⟩

/-- A `%` takes any number of characters. -/
theorem fits_any_iff : Fits (.anyText :: ps) t ↔ ∃ n ≤ t.length, Fits ps (t.drop n) := by
  constructor
  · rintro (_ | ⟨fits, _⟩ | ⟨taken, rest⟩)
    · cases fits
    · refine ⟨taken.length, by simp, ?_⟩
      rwa [List.drop_left]
  · rintro ⟨n, -, rest⟩
    rw [← List.take_append_drop n t]
    exact .any _ rest

theorem fits_empty_iff : Fits ps [] ↔ ∀ p ∈ ps, p = .anyText := by
  induction ps with
  | nil => simp [fits_nil_iff]
  | cons p ps ih =>
    by_cases single : p = .anyText
    · subst single
      simp [fits_any_iff, ih]
    · simp [fits_one_iff single, single]

theorem fits_addAnyText_iff : Fits (addAnyText ps) t ↔ Fits (.anyText :: ps) t := by
  match ps with
  | .anyText :: ps =>
    simp only [addAnyText, fits_any_iff, List.drop_drop, List.length_drop]
    constructor
    · rintro ⟨n, hn, rest⟩
      exact ⟨0, Nat.zero_le _, n, hn, by simpa using rest⟩
    · rintro ⟨n, hn, m, hm, rest⟩
      exact ⟨n + m, by omega, rest⟩
  | [] => rfl
  | .anyChar :: _ => rfl
  | .char _ :: _ => rfl

end

theorem isSpecial_eq_false_iff {c : Char} :
    isSpecial c = false ↔ c ≠ '%' ∧ c ≠ '_' ∧ c ≠ '\\' := by
  simp [isSpecial, and_assoc]

theorem items_escaped {c : Char} (special : isSpecial c = true) (cs : List Char) :
    items ('\\' :: c :: cs) = .char c :: items cs := by
  simp only [isSpecial, Bool.or_eq_true, beq_iff_eq] at special
  obtain (rfl | rfl) | rfl := special <;> rfl

theorem items_backslash {cs : List Char} (alone : ∀ c ∈ cs.head?, isSpecial c = false) :
    items ('\\' :: cs) = .char '\\' :: items cs := by
  cases cs with
  | nil => rfl
  | cons c cs =>
    have plain := alone c rfl
    rw [items]
    all_goals
      intros
      simp_all [isSpecial]

theorem items_itself {c : Char} (plain : isSpecial c = false) (cs : List Char) :
    items (c :: cs) = .char c :: items cs := by
  rw [items]
  all_goals
    intros
    simp_all [isSpecial]

/-- A pattern stands for what its parts stand for. -/
theorem denotes_iff_fits {p t : List Char} : Denotes p t ↔ Fits (items p) t := by
  constructor
  · intro h
    induction h with
    | empty => exact .nil
    | escaped special _ ih =>
      rw [items_escaped special]
      exact .one (beq_self_eq_true _) ih
    | backslash alone _ ih =>
      rw [items_backslash alone]
      exact .one rfl ih
    | anyText taken _ ih => exact fits_addAnyText_iff.2 (.any taken ih)
    | anyChar c _ ih => exact .one rfl ih
    | itself plain _ ih =>
      rw [items_itself plain]
      exact .one (beq_self_eq_true _) ih
  · intro h
    fun_induction items p generalizing t with
    | case1 cs ih | case2 cs ih | case3 cs ih =>
      obtain ⟨ds, rfl, rest⟩ := fits_char_iff.1 h
      exact .escaped rfl (ih rest)
    | case4 cs ih =>
      obtain ⟨n, -, rest⟩ := fits_any_iff.1 (fits_addAnyText_iff.1 h)
      rw [← List.take_append_drop n t]
      exact .anyText _ (ih rest)
    | case5 cs ih =>
      obtain ⟨c, ds, rfl, -, rest⟩ := (fits_one_iff (by decide)).1 h
      exact .anyChar c (ih rest)
    | case6 c cs percent underscore backslash notAny notOne ih =>
      obtain ⟨ds, rfl, rest⟩ := fits_char_iff.1 h
      by_cases hc : c = '\\'
      · subst hc
        refine .backslash ?_ (ih rest)
        intro d hd
        obtain ⟨cs, rfl⟩ := List.head?_eq_some_iff.1 hd
        refine isSpecial_eq_false_iff.2 ⟨?_, ?_, ?_⟩
        · rintro rfl
          exact percent cs rfl rfl
        · rintro rfl
          exact underscore cs rfl rfl
        · rintro rfl
          exact backslash cs rfl rfl
      · exact .itself (isSpecial_eq_false_iff.2 ⟨notAny, notOne, hc⟩) (ih rest)
    | case7 =>
      cases fits_nil_iff.1 h
      exact .empty

/-! ## Spots of the matcher -/

section

variable {ps : Array PatternItem} {cs : Array Char} {run qs : List PatternItem} {ds : List Char}
  {s s' : Spot} {r : Retry}

/-- Since it passed the `%`, the matcher has taken one character for each part. -/
def Retry.Leads (ps : Array PatternItem) (r : Retry) (s : Spot) : Prop :=
  ∃ run, .anyText ∉ run ∧ ps.toList.drop (r.part + 1) = run ++ ps.toList.drop s.part ∧
    s.char = r.char + run.length

/-- What holds wherever the matcher stands. -/
structure Spot.Valid (ps : Array PatternItem) (cs : Array Char) (s : Spot) : Prop
    extends s.Inside ps.size cs.size where
  leads : ∀ r ∈ s.retry, r.Leads ps s

/-- The parts behind the `%` fit what it leaves if it takes the text up to some character. -/
def Retry.Succeeds (ps : Array PatternItem) (cs : Array Char) (r : Retry) : Prop :=
  ∃ n, r.char ≤ n ∧ n ≤ cs.size ∧ Fits (ps.toList.drop (r.part + 1)) (cs.toList.drop n)

/-- The text can still be matched: from the spot on, or when the last `%` takes more. -/
def Spot.Succeeds (ps : Array PatternItem) (cs : Array Char) (s : Spot) : Prop :=
  Fits (ps.toList.drop s.part) (cs.toList.drop s.char) ∨ ∃ r ∈ s.retry, r.more.Succeeds ps cs

theorem drop_toList {α : Type} {xs : Array α} {i : Nat} {x : α} (h : xs[i]? = some x) :
    xs.toList.drop i = x :: xs.toList.drop (i + 1) := by
  obtain ⟨inside, rfl⟩ := Array.getElem?_eq_some_iff.1 h
  exact List.drop_eq_getElem_cons inside

/-- The parts up to the next `%` take one character each. -/
theorem Fits.after_run (single : .anyText ∉ run) (h : Fits (run ++ qs) ds) :
    run.length ≤ ds.length ∧ Fits qs (ds.drop run.length) := by
  induction run generalizing ds with
  | nil => exact ⟨Nat.zero_le _, h⟩
  | cons p run ih =>
    rw [List.mem_cons, not_or] at single
    obtain ⟨c, cs, rfl, -, rest⟩ := (fits_one_iff (Ne.symm single.1)).1 h
    obtain ⟨short, rest⟩ := ih single.2 rest
    exact ⟨Nat.succ_le_succ short, rest⟩

theorem spot_leads (r : Retry) : ∀ r' ∈ r.spot.retry, r'.Leads ps r.spot := by
  rintro _ ⟨⟩
  exact ⟨[], List.not_mem_nil, rfl, rfl⟩

theorem spot_succeeds_iff (char : r.char ≤ cs.size) :
    r.spot.Succeeds ps cs ↔ r.Succeeds ps cs := by
  constructor
  · rintro (here | ⟨_, ⟨⟩, n, above, below, later⟩)
    · exact ⟨r.char, Nat.le_refl _, char, here⟩
    · exact ⟨n, Nat.le_of_succ_le above, below, later⟩
  · rintro ⟨n, above, below, fits⟩
    obtain same | more := Nat.eq_or_lt_of_le above
    · exact .inl (by rwa [← same] at fits)
    · exact .inr ⟨r, rfl, n, more, below, fits⟩

/-! ## Steps of the matcher -/

/-- A `%` makes up for whatever the `%` before it could still take. -/
theorem Spot.Valid.pass_succeeds_iff (valid : s.Valid ps cs)
    (here : ps[s.part]? = some .anyText) :
    (Retry.spot ⟨s.part, s.char⟩).Succeeds ps cs ↔ s.Succeeds ps cs := by
  have inside := valid.char_le
  rw [spot_succeeds_iff inside]
  constructor
  · rintro ⟨n, above, below, fits⟩
    refine .inl ?_
    rw [drop_toList here, fits_any_iff]
    refine ⟨n - s.char, ?_, ?_⟩
    · rw [List.length_drop, Array.length_toList]
      dsimp only at above
      omega
    · rwa [List.drop_drop, Nat.add_sub_cancel' above]
  · rintro (here' | ⟨r, hr, n, above, below, later⟩)
    · rw [drop_toList here, fits_any_iff] at here'
      obtain ⟨n, below, fits⟩ := here'
      rw [List.length_drop, Array.length_toList] at below
      rw [List.drop_drop] at fits
      exact ⟨s.char + n, Nat.le_add_right _ _, by omega, fits⟩
    · -- the parts since the earlier `%` lead from there to this one
      obtain ⟨run, single, split, char⟩ := valid.leads r hr
      simp only [Retry.more] at above later
      rw [split, drop_toList here] at later
      obtain ⟨short, rest⟩ := later.after_run single
      obtain ⟨m, below', fits⟩ := fits_any_iff.1 rest
      simp only [List.length_drop, Array.length_toList, List.drop_drop] at short below' fits
      refine ⟨n + run.length + m, ?_, ?_, fits⟩
      · dsimp only
        omega
      · omega

/-- A part that takes the character leaves open what was open. -/
theorem Spot.forward_succeeds_iff (more : s.char < cs.size) {p : PatternItem}
    (here : ps[s.part]? = some p) (single : p ≠ .anyText) (fits : p.fits cs[s.char] = true) :
    (Spot.mk (s.char + 1) (s.part + 1) s.retry).Succeeds ps cs ↔ s.Succeeds ps cs := by
  have step : Fits (ps.toList.drop s.part) (cs.toList.drop s.char) ↔
      Fits (ps.toList.drop (s.part + 1)) (cs.toList.drop (s.char + 1)) := by
    rw [drop_toList here, drop_toList (Array.getElem?_eq_getElem more), fits_one_iff single]
    constructor
    · rintro ⟨c, cs, hc, -, rest⟩
      cases hc
      exact rest
    · exact fun rest => ⟨_, _, rfl, fits, rest⟩
  exact or_congr step.symm Iff.rfl

theorem Spot.Valid.forward_leads (valid : s.Valid ps cs) {p : PatternItem}
    (here : ps[s.part]? = some p) (single : p ≠ .anyText) :
    ∀ r ∈ s.retry, r.Leads ps ⟨s.char + 1, s.part + 1, s.retry⟩ := by
  intro r hr
  obtain ⟨run, singles, split, chars⟩ := valid.leads r hr
  refine ⟨run ++ [p], ?_, ?_, ?_⟩
  · simp [singles, Ne.symm single]
  · rw [split, drop_toList here, List.append_assoc, List.singleton_append]
  · rw [List.length_append, List.length_singleton]
    dsimp only
    omega

/-- Where nothing fits any more, all depends on the last `%`. -/
theorem Spot.Valid.succeeds_iff_back (valid : s.Valid ps cs) (more : s.char < cs.size)
    (stuck : ∀ p, ps[s.part]? = some p → p ≠ .anyText ∧ p.fits cs[s.char] = false) :
    s.Succeeds ps cs ↔ ∃ s', s.back? = some s' ∧ s'.Succeeds ps cs := by
  have none_here : ¬Fits (ps.toList.drop s.part) (cs.toList.drop s.char) := by
    rw [drop_toList (Array.getElem?_eq_getElem more)]
    cases here : ps[s.part]? with
    | none =>
      rw [List.drop_eq_nil_of_le (Array.getElem?_eq_none_iff.1 here), fits_nil_iff]
      exact List.cons_ne_nil _ _
    | some p =>
      obtain ⟨single, unlike⟩ := stuck p here
      rw [drop_toList here, fits_one_iff single]
      rintro ⟨c, ds, hc, taken, -⟩
      cases hc
      rw [unlike] at taken
      cases taken
  have inside {r : Retry} (hr : r ∈ s.retry) : r.more.char ≤ cs.size :=
    Nat.succ_le_of_lt (Nat.lt_of_le_of_lt (valid.retry_le r hr).2 more)
  constructor
  · rintro (here | ⟨r, hr, later⟩)
    · exact absurd here none_here
    · exact ⟨r.more.spot, by rw [back?, hr]; rfl, (spot_succeeds_iff (inside hr)).2 later⟩
  · rintro ⟨s', hs', later⟩
    obtain ⟨r, hr, rfl⟩ := Option.map_eq_some_iff.1 hs'
    exact .inr ⟨r, hr, (spot_succeeds_iff (inside hr)).1 later⟩

/-- A step leaves open what was open. -/
theorem Spot.Valid.next (valid : s.Valid ps cs) (more : s.char < cs.size)
    (next : s.next? ps cs[s.char] = some s') :
    s'.Valid ps cs ∧ (s'.Succeeds ps cs ↔ s.Succeeds ps cs) := by
  have inside := (valid.toInside.next more next).1
  obtain ⟨here, step⟩ | ⟨p, here, single, fits, step⟩ | ⟨stuck, step⟩ :=
    s.next?_cases ps cs[s.char]
  · cases step.symm.trans next
    exact ⟨⟨inside, spot_leads _⟩, valid.pass_succeeds_iff here⟩
  · cases step.symm.trans next
    exact ⟨⟨inside, valid.forward_leads here single⟩,
      Spot.forward_succeeds_iff more here single fits⟩
  · have turn := valid.succeeds_iff_back more stuck
    have back := step.symm.trans next
    obtain ⟨r, -, rfl⟩ := Option.map_eq_some_iff.1 back
    refine ⟨⟨inside, spot_leads _⟩, ?_⟩
    rw [turn, back]
    simp

/-- Without a next spot nothing is open. -/
theorem Spot.Valid.stuck (valid : s.Valid ps cs) (more : s.char < cs.size)
    (next : s.next? ps cs[s.char] = none) : ¬s.Succeeds ps cs := by
  obtain ⟨-, step⟩ | ⟨p, -, -, -, step⟩ | ⟨stuck, step⟩ := s.next?_cases ps cs[s.char]
  · cases step.symm.trans next
  · cases step.symm.trans next
  · rw [valid.succeeds_iff_back more stuck, step.symm.trans next]
    simp

/-- At the end of the text only `%` may be left over. -/
theorem Spot.Valid.succeeds_at_end (valid : s.Valid ps cs) (stop : s.char = cs.size) :
    s.Succeeds ps cs ↔ ∀ p ∈ ps.toList.drop s.part, p = .anyText := by
  have rest : Fits (ps.toList.drop s.part) (cs.toList.drop s.char) ↔
      ∀ p ∈ ps.toList.drop s.part, p = .anyText := by
    rw [stop, ← Array.length_toList, List.drop_length]
    exact fits_empty_iff
  constructor
  · rintro (here | ⟨r, hr, n, above, below, later⟩)
    · exact rest.1 here
    · -- the parts since the `%` have taken all the text after it
      obtain ⟨run, single, split, char⟩ := valid.leads r hr
      simp only [Retry.more] at above later
      rw [split] at later
      have short := (later.after_run single).1
      simp only [List.length_drop, Array.length_toList] at short
      omega
  · exact fun h => .inl (rest.2 h)

/-! ## Runs of the matcher -/

/-- From a spot that it can come to, the matcher finds out whether the text can be matched. -/
theorem Spot.Valid.scan_iff (valid : s.Valid ps cs) (inside : s.Inside ps.size cs.size) :
    scan ps cs s inside = true ↔ s.Succeeds ps cs := by
  fun_induction scan ps cs s inside with
  | case1 s inside more s' next ih =>
    obtain ⟨valid', same⟩ := valid.next more next
    exact (ih valid').trans same
  | case2 s inside more next =>
    have stuck := valid.stuck more next
    simp [stuck]
  | case3 s inside stop =>
    rw [valid.succeeds_at_end (Nat.le_antisymm inside.char_le (Nat.not_lt.1 stop)),
      ← Array.all_toList, List.all_eq_true]
    simp [List.take_of_length_le]

/-- Wherever they come from, the matcher finds out whether the parts stand for the text. -/
theorem fits_iff (ps : Array PatternItem) (cs : Array Char) :
    fits ps cs = true ↔ Fits ps.toList cs.toList := by
  have valid : ({} : Spot).Valid ps cs :=
    ⟨Spot.inside_start ps.size cs.size, fun _ h => by cases h⟩
  rw [fits, valid.scan_iff]
  constructor
  · rintro (here | ⟨r, h, -⟩)
    · exact here
    · cases h
  · exact .inl

/-- The matcher comes to the spot in a number of steps. -/
inductive Comes (ps : Array PatternItem) (cs : Array Char) : Nat → Spot → Prop
  | start : Comes ps cs 0 {}
  | next {n : Nat} {s s' : Spot} (more : s.char < cs.size) :
      Comes ps cs n s → s.next? ps cs[s.char] = some s' → Comes ps cs (n + 1) s'

/-- Every step uses up something of what is left at the start. -/
theorem Comes.inside {n : Nat} (h : Comes ps cs n s) : s.Inside ps.size cs.size ∧
    n + s.left ps.size cs.size ≤ ({} : Spot).left ps.size cs.size := by
  induction h with
  | start => exact ⟨Spot.inside_start _ _, Nat.le_of_eq (Nat.zero_add _)⟩
  | next more _ next ih =>
    obtain ⟨inside, less⟩ := ih
    obtain ⟨inside', closer⟩ := inside.next more next
    exact ⟨inside', by omega⟩

/-- What is left at the start, in terms of the pattern and the text. -/
theorem left_start_lt (parts chars : Nat) :
    ({} : Spot).left parts chars < (parts + 1) * (chars + 1) * (parts + 1) := by
  have front : parts * (chars + 1) + chars < (parts + 1) * (chars + 1) + 0 :=
    digits_lt (Nat.lt_succ_self parts) (Nat.le_refl chars)
  have whole : (parts * (chars + 1) + chars) * (parts + 1) + parts <
      (parts + 1) * (chars + 1) * (parts + 1) + 0 :=
    digits_lt front (Nat.le_refl parts)
  exact whole

end

end Pattern

namespace Value

/-- What `LIKE` says of values with a text. -/
theorem like_eq {a pattern : Value} {s p : String} (hs : a.toText? = some s)
    (hp : pattern.toText? = some p) :
    ∃ answer, a.like pattern = .ofBool answer ∧
      (answer = true ↔ Pattern.Denotes (upper p).toList (upper s).toList) := by
  refine ⟨Pattern.fits (Pattern.items (upper p).toList).toArray (upper s).toList.toArray, ?_, ?_⟩
  · simp only [like, hs, hp]
  · exact (Pattern.fits_iff _ _).trans Pattern.denotes_iff_fits.symm

/-- `LIKE` is TRUE exactly if the pattern stands for the text, both in upper case, and FALSE
otherwise. The matcher takes less than a bounded number of steps, and never leaves the pattern or the
text. -/
theorem like_iff_denotes {a pattern : Value} {s p : String} (hs : a.toText? = some s)
    (hp : pattern.toText? = some p) :
    (a.like pattern = .yes ↔ Pattern.Denotes (upper p).toList (upper s).toList) ∧
    (a.like pattern = .no ↔ ¬Pattern.Denotes (upper p).toList (upper s).toList) ∧
    ∀ (ps : Array PatternItem) (cs : Array Char) (steps : Nat) (spot : Pattern.Spot),
      Pattern.Comes ps cs steps spot →
      steps < (ps.size + 1) * (cs.size + 1) * (ps.size + 1) ∧
        spot.char ≤ cs.size ∧ spot.part ≤ ps.size := by
  obtain ⟨answer, like, means⟩ := like_eq hs hp
  refine ⟨?_, ?_, ?_⟩
  · rw [like, Truth.ofBool_eq_yes_iff, means]
  · rw [like, Truth.ofBool_eq_no_iff, means]
  · intro ps cs steps spot come
    obtain ⟨inside, used⟩ := come.inside
    have bound := Pattern.left_start_lt ps.size cs.size
    exact ⟨by omega, inside.char_le, inside.part_le⟩

/-- The text `ab%` is like a pattern that has `%` both for any characters and for itself. -/
theorem like_iff_denotes_escaped :
    (text "ab%").toText? = some "ab%" ∧ (text "%b\\%").toText? = some "%b\\%" ∧
      (text "ab%").like (text "%b\\%") = .yes := by
  refine ⟨rfl, rfl, (like_iff_denotes rfl rfl).1.2 ?_⟩
  have pattern : (upper "%b\\%").toList = ['%', 'B', '\\', '%'] := by decide
  have subject : (upper "ab%").toList = ['A'] ++ ['B', '%'] := by decide
  rw [pattern, subject]
  exact .anyText _ (.itself rfl (.escaped rfl .empty))

/-! ## Patterns of `_` alone -/

theorem denotes_underscores_iff {k : Nat} {t : List Char} :
    Pattern.Denotes (List.replicate k '_') t ↔ k = t.length := by
  induction k generalizing t with
  | zero =>
    rw [List.replicate_zero, Pattern.denotes_iff_fits, Pattern.items, Pattern.fits_nil_iff,
      ← List.length_eq_zero_iff, eq_comm]
  | succ k ih =>
    have one : Pattern.Denotes (List.replicate (k + 1) '_') t ↔
        ∃ c cs, t = c :: cs ∧ Pattern.Denotes (List.replicate k '_') cs := by
      rw [Pattern.denotes_iff_fits, List.replicate_succ, Pattern.items,
        Pattern.fits_one_iff (by decide)]
      simp only [Pattern.denotes_iff_fits, PatternItem.fits, true_and]
    rw [one]
    constructor
    · rintro ⟨c, cs, rfl, rest⟩
      rw [ih.1 rest, List.length_cons]
    · intro h
      obtain ⟨c, cs, rfl⟩ := List.exists_cons_of_length_eq_add_one h.symm
      exact ⟨c, cs, rfl, ih.2 (Nat.succ.inj h)⟩

theorem upper_underscores (k : Nat) :
    (upper (String.ofList (List.replicate k '_'))).toList = List.replicate k '_' := by
  have same : upperChar '_' = ['_'] := by decide
  rw [upper, String.toList_ofList, String.toList_ofList]
  induction k with
  | zero => rfl
  | succ k ih => rw [List.replicate_succ, List.flatMap_cons, ih, same, List.singleton_append]

/-- A text is like a number of `_` if it has that many characters in upper case. -/
theorem like_underscores (s : String) (k : Nat) :
    (text s).like (text (String.ofList (List.replicate k '_'))) =
      .ofBool (k == (upper s).length) := by
  have hs : (text s).toText? = some s := rfl
  have hp : (text (String.ofList (List.replicate k '_'))).toText? =
      some (String.ofList (List.replicate k '_')) := rfl
  obtain ⟨answer, like, means⟩ := like_eq hs hp
  rw [upper_underscores, denotes_underscores_iff, String.length_toList] at means
  rw [like, Bool.eq_iff_iff.2 (means.trans beq_iff_eq.symm)]

/-- A text is like as many `_` as it has characters in upper case, which is what `LEN(UPPER(s))`
counts. Those are no fewer than `LEN(s)` counts, and as many exactly if every character has a single
one as its upper case. -/
theorem like_underscores_iff (clock : Clock) (s : String) (k : Nat) :
    ((text s).like (text (String.ofList (List.replicate k '_'))) = .yes ↔ k = (upper s).length) ∧
    ScalarFunction.length.eval clock [ScalarFunction.upper.eval clock [text s]] =
      .ofNat (upper s).length ∧
    ScalarFunction.length.eval clock [text s] = .ofNat s.length ∧
    s.length ≤ (upper s).length ∧
    ((upper s).length = s.length ↔ ∀ c ∈ s.toList, (upperChar c).length = 1) := by
  obtain ⟨longer, same⟩ := length_le_length_upper s
  refine ⟨?_, rfl, rfl, longer, same⟩
  rw [like_underscores, Truth.ofBool_eq_yes_iff, beq_iff_eq]

/-- The sharp s is one character and not like one `_`, but like two. -/
theorem like_underscore_sharp_s :
    ScalarFunction.length.eval {} [text "ß"] = .ofNat 1 ∧
      (text "ß").like (text "_") = .no ∧ (text "ß").like (text "__") = .yes := by
  refine ⟨?_, ?_, ?_⟩
  · rfl
  · exact (like_underscores "ß" 1).trans (by decide)
  · exact (like_underscores "ß" 2).trans (by decide)

end Value

end TableQuery
