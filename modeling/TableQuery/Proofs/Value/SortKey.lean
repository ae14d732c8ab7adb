import TableQuery.Value.SortKey
import TableQuery.Proofs.Number.FloatOrder
import TableQuery.Proofs.Table.Sorting

/-!
# The order of sort keys

Of two key tuples at most one sorts strictly before the other. Three may go round in a circle: each
pair is compared in a form of its own, and keys without a common form do not compare at all. Keys of
one form do not go round, and neither do tuples whose columns do not.
-/

namespace TableQuery

open Calendar

/-! ## Comparisons with their sides exchanged -/

theorem Calendar.Moment.before_asymm {m n : Moment} (h : m.before n = true) :
    n.before m = false := by
  simp only [before, Bool.or_eq_true, Bool.and_eq_true, decide_eq_true_eq, beq_iff_eq] at h
  simp only [before, Bool.or_eq_false_iff, Bool.and_eq_false_imp, decide_eq_false_iff_not,
    beq_iff_eq]
  omega

theorem Calendar.Moment.not_before_trans {m n o : Moment} (hmn : m.before n = false)
    (hno : n.before o = false) : m.before o = false := by
  simp only [before, Bool.or_eq_false_iff, Bool.and_eq_false_imp, decide_eq_false_iff_not,
    beq_iff_eq] at *
  omega

namespace Comparison

theorem swap_ofOrder {less greater : Bool} (equal : Bool) (h : less = true → greater = false) :
    (ofOrder less greater equal).swap = ofOrder greater less equal := by
  cases less with
  | true =>
    rw [h rfl]
    rfl
  | false => cases greater <;> cases equal <;> rfl

theorem swap_ofIntegers (a b : Int64) : (ofIntegers a b).swap = ofIntegers b a := by
  rw [ofIntegers, ofIntegers, BEq.comm]
  exact swap_ofOrder _ (by simpa using fun h => Int64.le_of_lt h)

theorem swap_ofFloats (a b : Float) : (ofFloats a b).swap = ofFloats b a := by
  rw [ofFloats, ofFloats, Number.beq_comm]
  exact swap_ofOrder _ (by simpa using Number.not_lt_of_lt)

theorem swap_ofMoments (m n : Moment) : (ofMoments m n).swap = ofMoments n m := by
  unfold ofMoments
  cases h : m.before n with
  | true =>
    rw [Moment.before_asymm h]
    rfl
  | false => cases n.before m <;> rfl

theorem swap_ofTexts (a b : String) : (ofTexts a b).swap = ofTexts b a := by
  rw [ofTexts, ofTexts, BEq.comm]
  exact swap_ofOrder _ (by simpa using String.lt_asymm)

theorem ofOrder_eq_less_iff {less greater equal : Bool} :
    ofOrder less greater equal = .less ↔ less = true := by
  cases less <;> cases greater <;> cases equal <;> decide

theorem ofIntegers_eq_less_iff {i j : Int64} : ofIntegers i j = .less ↔ i < j :=
  ofOrder_eq_less_iff.trans decide_eq_true_iff

theorem ofFloats_eq_less_iff {f g : Float} : ofFloats f g = .less ↔ f < g :=
  ofOrder_eq_less_iff.trans decide_eq_true_iff

theorem ofMoments_eq_less_iff {m n : Moment} : ofMoments m n = .less ↔ m.before n = true := by
  unfold ofMoments
  cases m.before n <;> cases n.before m <;> decide

theorem ofTexts_eq_less_iff {s t : String} : ofTexts s t = .less ↔ s < t :=
  ofOrder_eq_less_iff.trans decide_eq_true_iff

end Comparison

namespace SortKey

theorem swap_both {α : Type} {f : α → α → Comparison} (h : ∀ a b, (f a b).swap = f b a)
    (a b : Option α) : (Value.both a b f).map Comparison.swap = Value.both b a f := by
  cases a <;> cases b <;> first | rfl | exact congrArg some (h _ _)

theorem compare_moment (m n : Moment) : (moment m).compare (moment n) = .ofMoments m n :=
  rfl

/-- How keys compare that are not both moments. -/
theorem compare_other {a b : SortKey} (h : ∀ m n, a = moment m → b ≠ moment n) :
    a.compare b = (((Value.both a.integral? b.integral? Comparison.ofIntegers).or
      (Value.both a.seconds? b.seconds? Comparison.ofFloats)).or
      (Value.both a.folded? b.folded? Comparison.ofTexts)).getD .incommensurable := by
  unfold compare
  split
  · exact absurd rfl (h _ _ rfl)
  · split <;> rename_i hi <;> rw [hi]
    · rfl
    · split <;> rename_i hs <;> rw [hs]
      · rfl
      · rfl

theorem swap_compare (a b : SortKey) : (a.compare b).swap = b.compare a := by
  by_cases h : ∀ m n, a = moment m → b ≠ moment n
  · have h' : ∀ m n, b = moment m → a ≠ moment n := fun m n hb ha => h n m ha hb
    rw [compare_other h, compare_other h', ← swap_both Comparison.swap_ofIntegers a.integral?,
      ← swap_both Comparison.swap_ofFloats a.seconds?, ← swap_both Comparison.swap_ofTexts a.folded?]
    cases Value.both a.integral? b.integral? Comparison.ofIntegers <;>
      cases Value.both a.seconds? b.seconds? Comparison.ofFloats <;>
      cases Value.both a.folded? b.folded? Comparison.ofTexts <;> rfl
  · obtain ⟨m, n, rfl, rfl⟩ : ∃ m n, a = moment m ∧ b = moment n := by
      simpa using h
    exact Comparison.swap_ofMoments m n

/-! ## Keys -/

theorem less_eq_no_iff {a b : SortKey} : a.less b = .no ↔ b.less a = .yes := by
  unfold less
  rw [← swap_compare a b]
  cases a.compare b <;> simp [Comparison.swap]

/-- Whether `a` goes before `b` in a column, if the column tells them apart. -/
def before? (order : KeyOrder) (a b : SortKey) : Option Bool :=
  match a.less b with
  | .yes => some (order.direction == .asc)
  | .no => some (order.direction == .desc)
  | .unknown =>
    match a.isNull, b.isNull with
    | true, false => some (order.nulls == .first)
    | false, true => some (order.nulls == .last)
    | _, _ => none

theorem tupleLess_cons (orders : List KeyOrder) (a b : SortKey) (as bs : List SortKey) :
    tupleLess orders (a :: as) (b :: bs) =
      (before? (orders.headD {}) a b).getD (tupleLess orders.tail as bs) := by
  rw [tupleLess, before?]
  cases a.less b <;> cases a.isNull <;> cases b.isNull <;> rfl

theorem before?_swap (order : KeyOrder) (a b : SortKey) :
    before? order b a = (before? order a b).map not := by
  have directions : (order.direction == .desc) = !(order.direction == .asc) := by
    cases order.direction <;> rfl
  have places : (order.nulls == .last) = !(order.nulls == .first) := by
    cases order.nulls <;> rfl
  have yes := @less_eq_no_iff a b
  have no := @less_eq_no_iff b a
  unfold before?
  rw [directions, places]
  cases ha : a.less b <;> cases hb : b.less a <;> cases a.isNull <;> cases b.isNull <;> simp_all

/-- Of two tuples at most one sorts strictly before the other. -/
theorem tupleLess_asymmetric (orders : List KeyOrder) : Asymmetric (tupleLess orders) := by
  intro as bs h
  induction as generalizing orders bs with
  | nil => cases h
  | cons a as ih =>
    cases bs with
    | nil => cases h
    | cons b bs =>
      rw [tupleLess_cons] at h ⊢
      rw [before?_swap]
      cases hab : before? (orders.headD {}) a b with
      | none =>
        rw [hab] at h
        exact ih _ _ h
      | some before =>
        rw [hab] at h
        cases h
        rfl

/-! ## Columns and tuples without circles -/

/-- Whether `a` goes before `b` in a column. -/
def goesBefore (order : KeyOrder) (a b : SortKey) : Bool :=
  before? order a b == some true

theorem before?_eq_none {order : KeyOrder} {a b : SortKey} (hab : InOrder (goesBefore order) a b)
    (hba : InOrder (goesBefore order) b a) : before? order b a = none := by
  unfold InOrder goesBefore at hab hba
  rw [before?_swap order b a] at hba
  cases h : before? order b a with
  | none => rfl
  | some before =>
    rw [h] at hab hba
    cases before <;> simp at hab hba

theorem inOrder_of_before?_eq_none {order : KeyOrder} {a b : SortKey}
    (h : before? order a b = none) : InOrder (goesBefore order) a b := by
  unfold InOrder goesBefore
  rw [before?_swap, h]
  rfl

/-- Where the first column does not tell the ends of three tuples apart, it does not tell any two of
them apart. -/
theorem before?_ends {order : KeyOrder} {s : SortKey → Prop}
    (column : TransitiveOn (goesBefore order) s) {a b c : SortKey} (ha : s a) (hb : s b) (hc : s c)
    (hab : InOrder (goesBefore order) a b) (hbc : InOrder (goesBefore order) b c) :
    before? order c a = some false ∨
      before? order c a = none ∧ before? order b a = none ∧ before? order c b = none := by
  have hac : InOrder (goesBefore order) a c := column a b c ha hb hc hab hbc
  cases h : before? order c a with
  | none =>
    have hca := inOrder_of_before?_eq_none h
    have hba := column b c a hb hc ha hbc hca
    have hcb := column c a b hc ha hb hca hab
    exact .inr ⟨rfl, before?_eq_none hab hba, before?_eq_none hbc hcb⟩
  | some before =>
    unfold InOrder goesBefore at hac
    rw [h] at hac
    cases before with
    | false => exact .inl rfl
    | true => cases hac

theorem inOrder_heads {order : KeyOrder} {a b : SortKey} {later : Bool}
    (h : (before? order b a).getD later = false) : InOrder (goesBefore order) a b := by
  unfold InOrder goesBefore
  cases hb : before? order b a with
  | none => rfl
  | some before =>
    rw [hb] at h
    cases h
    rfl

/-- Tuples of one width do not go round in a circle if their columns do not. -/
theorem tupleLess_transitiveOn {orders : List KeyOrder} {width : Nat} {s : List SortKey → Prop}
    (length : ∀ t, s t → t.length = width)
    (columns : ∀ k, TransitiveOn (goesBefore (orders.getD k {})) fun x => ∃ t, s t ∧ t[k]? = some x) :
    TransitiveOn (tupleLess orders) s := by
  induction width generalizing orders s with
  | zero =>
    intro as bs cs has _ _ _ _
    have empty : as = [] := List.length_eq_zero_iff.mp (length as has)
    rw [empty]
    cases cs <;> rfl
  | succ width ih =>
    intro as bs cs has hbs hcs hab hbc
    obtain ⟨a, as, rfl⟩ := List.exists_cons_of_length_eq_add_one (length as has)
    obtain ⟨b, bs, rfl⟩ := List.exists_cons_of_length_eq_add_one (length bs hbs)
    obtain ⟨c, cs, rfl⟩ := List.exists_cons_of_length_eq_add_one (length cs hcs)
    have rest : TransitiveOn (tupleLess orders.tail) fun t => ∃ x, s (x :: t) := by
      refine ih (fun t ⟨x, ht⟩ => Nat.succ.inj (length _ ht)) fun k => ?_
      intro x y z ⟨t, ⟨x', ht⟩, hx⟩ ⟨u, ⟨y', hu⟩, hy⟩ ⟨v, ⟨z', hv⟩, hz⟩
      have tail : orders.tail.getD k {} = orders.getD (k + 1) {} := by
        cases orders <;> rfl
      rw [tail]
      exact columns (k + 1) x y z ⟨_, ht, hx⟩ ⟨_, hu, hy⟩ ⟨_, hv, hz⟩
    have head : orders.headD {} = orders.getD 0 {} := by
      cases orders <;> rfl
    unfold InOrder at hab hbc ⊢
    rw [tupleLess_cons, head] at hab hbc ⊢
    obtain h | ⟨hca, hba, hcb⟩ := before?_ends (columns 0) ⟨_, has, rfl⟩ ⟨_, hbs, rfl⟩
      ⟨_, hcs, rfl⟩ (inOrder_heads hab) (inOrder_heads hbc)
    · rw [h]
      rfl
    · rw [hba] at hab
      rw [hcb] at hbc
      rw [hca]
      exact rest as bs cs ⟨a, has⟩ ⟨b, hbs⟩ ⟨c, hcs⟩ hab hbc

/-! ## Columns of one form -/

/-- The forms in which all pairs of keys are compared alike. -/
inductive Form where
  | integral
  | float
  | moment
  | text

/-- Whether a key has the form. A float that is not a number has none. -/
def HasForm : Form → SortKey → Prop
  | .integral, k => k.integral?.isSome
  | .float, k => ∃ f s, k = float f s ∧ f.isNaN = false
  | .moment, k => ∃ m, k = moment m
  | .text, k => ∃ s, k = text s

theorem less_eq_yes_iff {a b : SortKey} : a.less b = .yes ↔ a.compare b = .less := by
  unfold less
  cases a.compare b <;> simp

theorem less_integral {a b : SortKey} {i j : Int64} (ha : a.integral? = some i)
    (hb : b.integral? = some j) : a.less b = .yes ↔ i < j := by
  have other : ∀ m n, a = moment m → b ≠ moment n := by
    rintro m n rfl
    cases ha
  rw [less_eq_yes_iff, compare_other other, ha, hb]
  exact Comparison.ofIntegers_eq_less_iff

theorem less_float {f g : Float} {s t : String} : (float f s).less (float g t) = .yes ↔ f < g :=
  less_eq_yes_iff.trans Comparison.ofFloats_eq_less_iff

theorem less_moment {m n : Moment} : (moment m).less (moment n) = .yes ↔ m.before n = true :=
  less_eq_yes_iff.trans Comparison.ofMoments_eq_less_iff

theorem less_text {s t : String} : (text s).less (text t) = .yes ↔ s < t :=
  less_eq_yes_iff.trans Comparison.ofTexts_eq_less_iff

/-- Keys of one form do not go round in a circle. -/
theorem less_transitive (form : Form) {a b c : SortKey} (ha : HasForm form a) (hb : HasForm form b)
    (hc : HasForm form c) (hab : a.less b ≠ .yes) (hbc : b.less c ≠ .yes) : a.less c ≠ .yes := by
  cases form with
  | integral =>
    obtain ⟨i, hi⟩ := Option.isSome_iff_exists.mp ha
    obtain ⟨j, hj⟩ := Option.isSome_iff_exists.mp hb
    obtain ⟨k, hk⟩ := Option.isSome_iff_exists.mp hc
    rw [Ne, less_integral hi hj, Int64.not_lt] at hab
    rw [Ne, less_integral hj hk, Int64.not_lt] at hbc
    rw [Ne, less_integral hi hk, Int64.not_lt]
    exact Int64.le_trans hbc hab
  | float =>
    obtain ⟨f, s, rfl, hf⟩ := ha
    obtain ⟨g, t, rfl, hg⟩ := hb
    obtain ⟨h, u, rfl, hh⟩ := hc
    rw [Ne, less_float, Number.lt_iff_place hf hg, not_lt] at hab
    rw [Ne, less_float, Number.lt_iff_place hg hh, not_lt] at hbc
    rw [Ne, less_float, Number.lt_iff_place hf hh, not_lt]
    exact le_trans hbc hab
  | moment =>
    obtain ⟨m, rfl⟩ := ha
    obtain ⟨n, rfl⟩ := hb
    obtain ⟨o, rfl⟩ := hc
    rw [Ne, less_moment, Bool.not_eq_true] at *
    exact Moment.not_before_trans hab hbc
  | text =>
    obtain ⟨s, rfl⟩ := ha
    obtain ⟨t, rfl⟩ := hb
    obtain ⟨u, rfl⟩ := hc
    rw [Ne, less_text, String.not_lt] at *
    exact String.le_trans hbc hab

theorem less_of_isNull {a b : SortKey} (h : a.isNull = true ∨ b.isNull = true) :
    a.less b = .unknown := by
  cases a <;> cases b <;> first | rfl | simp [isNull] at h

theorem goesBefore_of_isNull (order : KeyOrder) {a b : SortKey}
    (h : a.isNull = true ∨ b.isNull = true) :
    goesBefore order a b = (!(a.isNull && b.isNull) && (a.isNull == (order.nulls == .first))) := by
  rw [goesBefore, before?, less_of_isNull h]
  cases ha : a.isNull <;> cases hb : b.isNull <;> cases order.nulls <;> simp_all

theorem goesBefore_of_isSome (order : KeyOrder) {a b : SortKey} (ha : a.isNull = false)
    (hb : b.isNull = false) :
    goesBefore order a b = true ↔
      (order.direction = .asc ∧ a.less b = .yes) ∨ (order.direction = .desc ∧ b.less a = .yes) := by
  rw [← @less_eq_no_iff a b, goesBefore, before?, ha, hb]
  cases a.less b <;> cases order.direction <;> simp

theorem inOrder_of_isSome (order : KeyOrder) {a b : SortKey} (ha : a.isNull = false)
    (hb : b.isNull = false) :
    InOrder (goesBefore order) a b ↔
      (order.direction = .asc → b.less a ≠ .yes) ∧ (order.direction = .desc → a.less b ≠ .yes) := by
  rw [InOrder, ← Bool.not_eq_true, goesBefore_of_isSome order hb ha, not_or, not_and, not_and]

/-- A column of keys of one form and NULLs does not go round in a circle. -/
theorem goesBefore_transitiveOn (order : KeyOrder) (form : Form) {s : SortKey → Prop}
    (uniform : ∀ k, s k → k.isNull = true ∨ HasForm form k) :
    TransitiveOn (goesBefore order) s := by
  intro a b c hsa hsb hsc hab hbc
  by_cases some : a.isNull = false ∧ b.isNull = false ∧ c.isNull = false
  · obtain ⟨ha, hb, hc⟩ := some
    have formed {k : SortKey} (hs : s k) (hk : k.isNull = false) : HasForm form k :=
      (uniform k hs).resolve_left (by rw [hk]; decide)
    rw [inOrder_of_isSome order ha hb] at hab
    rw [inOrder_of_isSome order hb hc] at hbc
    rw [inOrder_of_isSome order ha hc]
    exact ⟨fun asc => less_transitive form (formed hsc hc) (formed hsb hb) (formed hsa ha)
        (hbc.1 asc) (hab.1 asc),
      fun desc => less_transitive form (formed hsa ha) (formed hsb hb) (formed hsc hc)
        (hab.2 desc) (hbc.2 desc)⟩
  · -- a NULL is on the same side of all keys
    unfold InOrder at *
    cases ha : a.isNull <;> cases hb : b.isNull <;> cases hc : c.isNull <;>
      simp_all [goesBefore_of_isNull]

end SortKey

end TableQuery
