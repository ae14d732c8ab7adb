import TableQuery.Function.Aggregate
import TableQuery.Proofs.Value.Transitivity

/-!
# Extremes

`MAX` and `MIN` go through the values once and hold one of them, which a later value replaces if it
is greater or less. What they hold in the end is an extreme if the comparison is transitive on the
values, as it is on numbers. It is not transitive on values of several kinds: a numeral compares
with a number by value and with a word letter by letter.
-/

namespace TableQuery

open Calendar Number

variable {clock : Clock} {op : CompareOp} {a b c : Value} {vs ws : List Value} {s : Value → Prop}

/-- The function finds a value of a list to which no other value is `op`, as far as this is possible
with one look at each of them. -/
structure SeeksExtreme (clock : Clock) (op : CompareOp) (reduce : List Value → Value) : Prop where
  /-- The result is NULL only if all values are. -/
  null_iff : ∀ vs, reduce vs = .null ↔ ∀ v ∈ vs, v = .null
  /-- Any other result is one of the values, and no later one replaces it. -/
  found : ∀ vs, reduce vs ≠ .null → ∃ before after, vs = before ++ reduce vs :: after ∧
    ∀ v ∈ after, v.test clock op (reduce vs) ≠ .yes
  /-- It is an extreme of all values, whatever lists are made of them, if the comparison is
  transitive, and only then. -/
  extreme_iff : ∀ s : Value → Prop,
    (∀ vs : List Value, (∀ v ∈ vs, s v) → ∀ v ∈ vs, v.test clock op (reduce vs) ≠ .yes) ↔
      op.TransitiveOn clock s
  /-- In another order the values have an extreme that is neither greater nor less. -/
  permuted : ∀ s : Value → Prop, op.TransitiveOn clock s →
    ∀ vs ws : List Value, (∀ v ∈ vs, s v) → vs.Perm ws →
      (reduce ws).test clock .greater (reduce vs) ≠ .yes ∧
        (reduce ws).test clock .less (reduce vs) ≠ .yes

/-! ## Scans -/

section

variable {α : Type} {beyond : α → α → Bool} {first x : α} {xs : List α}

/-- What is held when a value comes. -/
def hold (beyond : α → α → Bool) (held x : α) : α :=
  if beyond x held then x else held

theorem hold_of_beyond (h : beyond x first = true) : hold beyond first x = x :=
  if_pos h

theorem hold_of_not_beyond (h : beyond x first = false) : hold beyond first x = first :=
  if_neg (by simp [h])

/-- What is held in the end is one of the values, and no later one is beyond it. -/
theorem exists_foldl_hold (beyond : α → α → Bool) (first : α) (xs : List α) :
    ∃ before after, first :: xs = before ++ xs.foldl (hold beyond) first :: after ∧
      ∀ x ∈ after, beyond x (xs.foldl (hold beyond) first) = false := by
  induction xs generalizing first with
  | nil => exact ⟨[], [], rfl, List.forall_mem_nil _⟩
  | cons x xs ih =>
    rw [List.foldl_cons]
    cases replaces : beyond x first with
    | true =>
      rw [hold_of_beyond replaces]
      obtain ⟨before, after, split, later⟩ := ih x
      exact ⟨first :: before, after, by rw [split]; rfl, later⟩
    | false =>
      rw [hold_of_not_beyond replaces]
      obtain ⟨before, after, split, later⟩ := ih first
      -- the value stands behind the first one, which may be the one that is held
      cases before with
      | nil =>
        obtain ⟨same, rfl⟩ := List.cons_eq_cons.mp split
        refine ⟨[], x :: xs, by rw [← same]; rfl, List.forall_mem_cons.mpr ⟨?_, later⟩⟩
        rw [← same]
        exact replaces
      | cons b before =>
        obtain ⟨same, rest⟩ := List.cons_eq_cons.mp split
        refine ⟨first :: x :: before, after, ?_, later⟩
        rw [List.cons_append, List.cons_append, ← List.append_eq, ← rest]

/-- What is not beyond the value held is not beyond those that replace it. -/
theorem foldl_hold_keeps {t : α → Prop}
    (trans : ∀ a b c, t a → t b → t c → beyond a b → beyond b c → beyond a c) (hx : t x)
    (hfirst : t first) (hxs : ∀ y ∈ xs, t y) (h : beyond x first = false) :
    beyond x (xs.foldl (hold beyond) first) = false := by
  induction xs generalizing first with
  | nil => exact h
  | cons y xs ih =>
    rw [List.forall_mem_cons] at hxs
    rw [List.foldl_cons]
    cases replaces : beyond y first with
    | false =>
      rw [hold_of_not_beyond replaces]
      exact ih hfirst hxs.2 h
    | true =>
      rw [hold_of_beyond replaces]
      refine ih hxs.1 hxs.2 ?_
      rw [← Bool.not_eq_true]
      intro hxy
      rw [trans x y first hx hxs.1 hfirst hxy replaces] at h
      cases h

/-- The value that comes is not beyond what is held then. -/
theorem not_beyond_hold (irrefl : ∀ a, beyond a a = false) :
    beyond x (hold beyond first x) = false := by
  cases replaces : beyond x first with
  | true =>
    rw [hold_of_beyond replaces]
    exact irrefl x
  | false =>
    rw [hold_of_not_beyond replaces]
    exact replaces

/-- With a transitive comparison no value is beyond what is held in the end. -/
theorem foldl_hold_extreme {t : α → Prop} (irrefl : ∀ a, beyond a a = false)
    (trans : ∀ a b c, t a → t b → t c → beyond a b → beyond b c → beyond a c)
    (h : ∀ y ∈ first :: xs, t y) (hx : x ∈ first :: xs) :
    beyond x (xs.foldl (hold beyond) first) = false := by
  rw [List.forall_mem_cons] at h
  rcases List.mem_cons.mp hx with rfl | later
  · exact foldl_hold_keeps trans h.1 h.1 h.2 (irrefl x)
  clear hx
  induction xs generalizing first with
  | nil => cases later
  | cons y xs ih =>
    obtain ⟨hfirst, hxs⟩ := h
    rw [List.forall_mem_cons] at hxs
    have held : t (hold beyond first y) := by
      rw [hold]
      split
      · exact hxs.1
      · exact hfirst
    rw [List.foldl_cons]
    rcases List.mem_cons.mp later with rfl | later
    · exact foldl_hold_keeps trans hxs.1 held hxs.2 (not_beyond_hold irrefl)
    · exact ih ⟨held, hxs.2⟩ later

end

/-! ## The value that is found -/

/-- The operators for which an extreme is sought are strict. -/
structure CompareOp.Strict (clock : Clock) (op : CompareOp) : Prop where
  irrefl : ∀ a : Value, a.test clock op a ≠ .yes
  nonnull : ∀ a b : Value, a.test clock op b = .yes → a ≠ .null ∧ b ≠ .null
  /-- Values that are not beyond one another are neither greater nor less. -/
  sides : ∀ a b : Value, a.test clock op b ≠ .yes → b.test clock op a ≠ .yes →
    a.test clock .greater b ≠ .yes ∧ a.test clock .less b ≠ .yes

theorem CompareOp.strict_less (clock : Clock) : CompareOp.less.Strict clock where
  irrefl := Value.not_test_less_self clock
  nonnull _ _ := Value.nonnull_of_test_less
  sides a b ab ba := ⟨by rwa [ne_eq, Value.test_greater_iff], ab⟩

theorem CompareOp.strict_greater (clock : Clock) : CompareOp.greater.Strict clock where
  irrefl a := by
    rw [ne_eq, Value.test_greater_iff]
    exact Value.not_test_less_self clock a
  nonnull a b h := (Value.nonnull_of_test_less (Value.test_greater_iff.mp h)).symm
  sides a b ab ba := ⟨ab, by rwa [ne_eq, ← Value.test_greater_iff]⟩

/-- The test by which a value replaces the one that is held. -/
def Value.replaces (clock : Clock) (op : CompareOp) (v held : Value) : Bool :=
  (v.test clock op held).holds

theorem replaces_eq_false_iff : a.replaces clock op b = false ↔ a.test clock op b ≠ .yes := by
  rw [Value.replaces, ← Bool.not_eq_true, Truth.holds_iff]

/-- The values that are looked at. -/
def nonnulls (vs : List Value) : List Value :=
  vs.filter fun v => !v.isNull

theorem Aggregate.extreme_of_nil (h : nonnulls vs = []) :
    Aggregate.extreme clock op vs = .null := by
  unfold extreme
  rw [show (vs.filter fun v => !v.isNull) = [] from h]
  rfl

theorem Aggregate.extreme_of_cons (h : nonnulls vs = a :: ws) :
    Aggregate.extreme clock op vs = ws.foldl (hold (Value.replaces clock op)) a := by
  unfold extreme
  rw [show (vs.filter fun v => !v.isNull) = a :: ws from h]
  dsimp only [List.foldl_cons]
  clear h
  induction ws generalizing a with
  | nil => rfl
  | cons v ws ih =>
    rw [List.foldl_cons, List.foldl_cons, ← ih]
    unfold hold Value.replaces
    dsimp only
    cases (v.test clock op a).holds <;> rfl

theorem mem_nonnulls_iff : a ∈ nonnulls vs ↔ a ∈ vs ∧ a ≠ .null := by
  rw [nonnulls, List.mem_filter]
  cases a <;> simp [Value.isNull]

theorem nonnulls_cons (h : a ≠ .null) : nonnulls (a :: vs) = a :: nonnulls vs := by
  refine List.filter_cons_of_pos ?_
  cases a <;> first | rfl | exact absurd rfl h

theorem nonnulls_eq_nil_iff : nonnulls vs = [] ↔ ∀ v ∈ vs, v = .null := by
  simp only [List.eq_nil_iff_forall_not_mem, mem_nonnulls_iff, not_and, not_not]

theorem Aggregate.extreme_eq_null_iff :
    extreme clock op vs = .null ↔ ∀ v ∈ vs, v = .null := by
  constructor
  · intro h
    rw [← nonnulls_eq_nil_iff]
    cases looked : nonnulls vs with
    | nil => rfl
    | cons first rest =>
      rw [Aggregate.extreme_of_cons looked] at h
      obtain ⟨before, after, split, -⟩ := exists_foldl_hold (Value.replaces clock op) first rest
      have mem : Value.null ∈ nonnulls vs := by
        rw [looked, split, h]
        simp
      exact absurd rfl (mem_nonnulls_iff.mp mem).2
  · exact fun h => Aggregate.extreme_of_nil (nonnulls_eq_nil_iff.mpr h)

namespace CompareOp.Strict

/-- A result other than NULL is one of the values, and no later one replaces it. -/
theorem found (strict : op.Strict clock) (h : Aggregate.extreme clock op vs ≠ .null) :
    ∃ before after, vs = before ++ Aggregate.extreme clock op vs :: after ∧
      ∀ v ∈ after, v.test clock op (Aggregate.extreme clock op vs) ≠ .yes := by
  cases looked : nonnulls vs with
  | nil => exact absurd (Aggregate.extreme_of_nil looked) h
  | cons first rest =>
    rw [Aggregate.extreme_of_cons looked]
    obtain ⟨before, after, split, later⟩ := exists_foldl_hold (Value.replaces clock op) first rest
    generalize rest.foldl (hold (Value.replaces clock op)) first = m at split later ⊢
    rw [split, nonnulls, List.filter_eq_append_iff] at looked
    obtain ⟨before', rest', rfl, -, last⟩ := looked
    obtain ⟨skipped, after', rfl, -, -, rfl⟩ := List.filter_eq_cons_iff.mp last
    refine ⟨before' ++ skipped, after', by rw [List.append_assoc], fun v hv => ?_⟩
    by_cases null : v = .null
    · exact fun beyond => (strict.nonnull v m beyond).1 null
    · exact replaces_eq_false_iff.mp (later v (mem_nonnulls_iff.mpr ⟨hv, null⟩))

/-- With a transitive comparison no value of the list is beyond the result. -/
theorem extreme (strict : op.Strict clock) (trans : op.TransitiveOn clock s)
    (hvs : ∀ v ∈ vs, s v) {v : Value} (hv : v ∈ vs) :
    v.test clock op (Aggregate.extreme clock op vs) ≠ .yes := by
  intro beyond
  have looked : v ∈ nonnulls vs := mem_nonnulls_iff.mpr ⟨hv, (strict.nonnull _ _ beyond).1⟩
  have all : ∀ y ∈ nonnulls vs, s y := fun y hy => hvs y (mem_nonnulls_iff.mp hy).1
  cases split : nonnulls vs with
  | nil =>
    rw [split] at looked
    cases looked
  | cons first rest =>
    rw [split] at looked all
    rw [Aggregate.extreme_of_cons split] at beyond
    refine replaces_eq_false_iff.mp (foldl_hold_extreme ?_ ?_ all looked) beyond
    · exact fun a => replaces_eq_false_iff.mpr (strict.irrefl a)
    · simp only [Value.replaces, Truth.holds_iff]
      exact trans

/-- Three values make a list of which a transitive comparison is needed. -/
theorem transitiveOn (strict : op.Strict clock)
    (h : ∀ vs : List Value, (∀ v ∈ vs, s v) → ∀ v ∈ vs,
      v.test clock op (Aggregate.extreme clock op vs) ≠ .yes) : op.TransitiveOn clock s := by
  intro a b c ha hb hc hab hbc
  by_contra hac
  have nonnull := strict.nonnull a b hab
  have looked : nonnulls [c, a, b] = [c, a, b] := by
    rw [nonnulls_cons (strict.nonnull b c hbc).2, nonnulls_cons nonnull.1, nonnulls_cons nonnull.2]
    rfl
  have result : Aggregate.extreme clock op [c, a, b] = b := by
    rw [Aggregate.extreme_of_cons looked, List.foldl_cons, List.foldl_cons, List.foldl_nil,
      hold_of_not_beyond (replaces_eq_false_iff.mpr hac),
      hold_of_beyond (show Value.replaces clock op b c = true from Truth.holds_iff.mpr hbc)]
  refine h [c, a, b] (by simp [ha, hb, hc]) a (by simp) ?_
  rw [result]
  exact hab

/-- What is found in a list is not beyond what is found in another list of the same values. -/
theorem not_beyond (strict : op.Strict clock) (trans : op.TransitiveOn clock s)
    (hvs : ∀ v ∈ vs, s v) (perm : vs.Perm ws) :
    (Aggregate.extreme clock op ws).test clock op (Aggregate.extreme clock op vs) ≠ .yes := by
  intro beyond
  obtain ⟨before, after, split, -⟩ := strict.found (strict.nonnull _ _ beyond).1
  have mem : Aggregate.extreme clock op ws ∈ before ++ Aggregate.extreme clock op ws :: after := by
    simp
  rw [← split] at mem
  exact strict.extreme trans hvs (perm.mem_iff.mpr mem) beyond

/-- The scan seeks an extreme. -/
theorem seeksExtreme (strict : op.Strict clock) :
    SeeksExtreme clock op (Aggregate.extreme clock op) where
  null_iff _ := Aggregate.extreme_eq_null_iff
  found _ := strict.found
  extreme_iff s := ⟨strict.transitiveOn, fun trans _ hvs _ hv => strict.extreme trans hvs hv⟩
  permuted s trans vs ws hvs perm := by
    have hws : ∀ v ∈ ws, s v := fun v hv => hvs v (perm.mem_iff.mpr hv)
    exact strict.sides _ _ (strict.not_beyond trans hvs perm)
      (strict.not_beyond trans hws perm.symm)

end CompareOp.Strict

/-- `MAX` and `MIN` seek an extreme. It is one of all values if the comparison is transitive on them,
as it is on numbers and on values that are compared in one type. -/
theorem extremes_of_transitive_comparisons (clock : Clock) :
    SeeksExtreme clock .greater (Aggregate.max.eval clock) ∧
    SeeksExtreme clock .less (Aggregate.min.eval clock) ∧
    ∀ op : CompareOp, op = .greater ∨ op = .less →
      (op.TransitiveOn clock fun v => v = .null ∨ v.toFloat?.isSome) ∧
      ∀ (type : CommonType) (s : Value → Prop),
        (∀ a b, s a → s b → a = .null ∨ b = .null ∨ Value.commonType? clock a b = some type) →
        op.TransitiveOn clock s := by
  refine ⟨(CompareOp.strict_greater clock).seeksExtreme, (CompareOp.strict_less clock).seeksExtreme,
    ?_⟩
  rintro _ (rfl | rfl)
  · exact ⟨CompareOp.transitiveOn_greater_iff.mpr (CompareOp.transitiveOn_numbers clock),
      fun _ _ h => CompareOp.transitiveOn_greater_iff.mpr (CompareOp.transitiveOn_of_commonType h)⟩
  · exact ⟨CompareOp.transitiveOn_numbers clock, fun _ _ h => CompareOp.transitiveOn_of_commonType h⟩

/-- A word is greater than a numeral, which is greater than a number, but the word and the number do
not compare: `MAX` of 9, `'a'` and `'10'` is `'10'`, which is less than `'a'`, and `MAX` of these in
another order is `'a'`. -/
theorem extreme_of_mixed_values :
    let vs : List Value := [.integer 9, .text "a", .text "10"]
    let ws : List Value := [.text "a", .integer 9, .text "10"]
    vs.Perm ws ∧ Aggregate.max.eval {} vs = .text "10" ∧
      (∃ v ∈ vs, v.test {} .greater (Aggregate.max.eval {} vs) = .yes) ∧
      (Aggregate.max.eval {} ws).test {} .greater (Aggregate.max.eval {} vs) = .yes := by
  intro vs ws
  have first : Aggregate.max.eval {} vs = .text "10" := by rfl
  have second : Aggregate.max.eval {} ws = .text "a" := by rfl
  have greater : (Value.text "a").test {} .greater (.text "10") = .yes := by decide +kernel
  refine ⟨.swap _ _ _, first, ⟨.text "a", by simp [vs], ?_⟩, ?_⟩
  · rw [first]
    exact greater
  · rw [first, second]
    exact greater

end TableQuery
