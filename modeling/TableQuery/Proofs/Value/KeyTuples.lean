import TableQuery.Proofs.Value.Exchange

/-!
# Tuples of sort keys as an order

The directions of the keys and the places of NULLs may be given for fewer keys than there are. The
rest is ascending, with NULLs first. Whatever they are, tuples of integers, booleans and NULLs are in
a strict weak order, in which those that tie are the ones that it does not tell apart.
-/

namespace TableQuery

/-! ## Strict weak orders -/

section

variable {α : Type} {less : α → α → Bool} {s : α → Prop} {a b c : α}

/-- Neither of two elements is less than the other. -/
def Incomparable (less : α → α → Bool) (a b : α) : Prop :=
  InOrder less a b ∧ InOrder less b a

theorem TransitiveOn.less_trans (trans : TransitiveOn less s) (asymm : Asymmetric less) (ha : s a)
    (hb : s b) (hc : s c) (hab : less a b = true) (hbc : less b c = true) : less a c = true := by
  rw [← Bool.not_eq_false]
  intro hac
  have hba : less a b = false := trans b c a hb hc ha (asymm b c hbc) hac
  exact Bool.false_ne_true (hba.symm.trans hab)

theorem TransitiveOn.incomparable_trans (trans : TransitiveOn less s) (ha : s a) (hb : s b)
    (hc : s c) (hab : Incomparable less a b) (hbc : Incomparable less b c) :
    Incomparable less a c :=
  ⟨trans a b c ha hb hc hab.1 hbc.1, trans c b a hc hb ha hbc.2 hab.2⟩

theorem Asymmetric.irrefl (asymm : Asymmetric less) (a : α) : less a a = false := by
  rw [← Bool.not_eq_true]
  intro h
  exact Bool.false_ne_true ((asymm a a h).symm.trans h)

end

/-! ## Directions and places -/

def Direction.reverse : Direction → Direction
  | asc => desc
  | desc => asc

def NullPlacement.reverse : NullPlacement → NullPlacement
  | first => last
  | last => first

namespace KeyOrder

/-- The order that a list of directions and a list of placements give to the key at a place. -/
def ofListsAt (directions : List Direction) (nulls : List NullPlacement) (i : Nat) : KeyOrder :=
  let direction := directions.getD i .asc
  { direction, nulls := nulls.getD i direction.nullPlacement }

/-- The orders that the lists give to keys, as far as one of them goes. -/
def ofLists (directions : List Direction) (nulls : List NullPlacement) : List KeyOrder :=
  (List.range (max directions.length nulls.length)).map (ofListsAt directions nulls)

variable (directions : List Direction) (nulls : List NullPlacement)

theorem getD_ofLists (i : Nat) :
    (ofLists directions nulls).getD i {} = ofListsAt directions nulls i := by
  rw [ofLists, List.getD_eq_getElem?_getD, List.getElem?_map]
  by_cases h : i < max directions.length nulls.length
  · rw [List.getElem?_range h]
    rfl
  · rw [List.getElem?_eq_none (by rw [List.length_range]; exact not_lt.mp h), ofListsAt,
      List.getD_eq_default _ _ (le_of_max_le_left (not_lt.mp h)),
      List.getD_eq_default _ _ (le_of_max_le_right (not_lt.mp h))]
    rfl

/-- The order with both the direction and the place of NULLs turned round. -/
def reverse (order : KeyOrder) : KeyOrder :=
  ⟨order.direction.reverse, order.nulls.reverse⟩

theorem ofListsAt_reverse {i : Nat} (hd : i < directions.length) (hn : i < nulls.length) :
    ofListsAt (directions.map .reverse) (nulls.map .reverse) i =
      (ofListsAt directions nulls i).reverse := by
  simp [ofListsAt, reverse, hd, hn]

end KeyOrder

namespace SortKey

variable {order : KeyOrder} {orders : List KeyOrder} {a b : SortKey} {as bs cs ds : List SortKey}

/-! ## Single keys -/

/-- The key is an integer, a boolean or NULL. -/
def IsIntegral (k : SortKey) : Prop :=
  k.isNull = true ∨ HasForm .integral k

theorem isNull_of_ties (h : a.ties b = true) : a.isNull = b.isNull := by
  rw [ties_eq, Bool.or_eq_true, Bool.and_eq_true, beq_iff_eq] at h
  obtain ⟨ha, hb⟩ | equal := h
  · rw [ha, hb]
  · cases a <;> cases b <;> first | rfl | cases equal

/-- Keys that tie are not told apart. -/
theorem before?_of_ties (h : a.ties b = true) : before? order a b = none := by
  rw [before?, less_of_ties h, isNull_of_ties h]
  cases b.isNull <;> rfl

theorem ties_integral {i j : Int64} (ha : a.integral? = some i) (hb : b.integral? = some j) :
    a.ties b = (i == j) := by
  cases a <;> cases ha <;> cases b <;> cases hb <;> rfl

/-- Integers, booleans and NULLs that are not told apart tie. -/
theorem ties_of_before? (ha : a.IsIntegral) (hb : b.IsIntegral) (h : before? order a b = none) :
    a.ties b = true := by
  obtain ⟨unknown, same⟩ : a.less b = .unknown ∧ a.isNull = b.isNull := by
    unfold before? at h
    cases hl : a.less b <;> rw [hl] at h <;> first | cases h | skip
    refine ⟨rfl, ?_⟩
    cases hx : a.isNull <;> cases hy : b.isNull <;> rw [hx, hy] at h <;> first | rfl | cases h
  cases hn : a.isNull with
  | true => rw [ties_eq, hn, ← same, hn]; rfl
  | false =>
    obtain ⟨i, hi⟩ := Option.isSome_iff_exists.mp (ha.resolve_left (by simp [hn]))
    obtain ⟨j, hj⟩ := Option.isSome_iff_exists.mp (hb.resolve_left (by simp [← same, hn]))
    have hij : ¬ i < j := fun lt => by
      rw [(less_integral hi hj).mpr lt] at unknown
      cases unknown
    have hji : ¬ j < i := fun lt => by
      rw [less_eq_no_iff.mpr ((less_integral hj hi).mpr lt)] at unknown
      cases unknown
    rw [ties_integral hi hj, beq_iff_eq]
    exact Int64.le_antisymm (Int64.not_lt.mp hji) (Int64.not_lt.mp hij)

theorem before?_reverse (order : KeyOrder) (a b : SortKey) :
    before? order.reverse a b = before? order b a := by
  rw [before?_swap order a b]
  unfold before? KeyOrder.reverse
  cases order.direction <;> cases order.nulls <;> cases a.less b <;> cases a.isNull <;>
    cases b.isNull <;> rfl

/-! ## Tuples -/

/-- The tuple has a certain width, and all of its keys are integers, booleans or NULLs. -/
structure IntegralTuple (width : Nat) (ks : List SortKey) : Prop where
  length : ks.length = width
  integral : ∀ k ∈ ks, k.IsIntegral

theorem headD_eq_getD (orders : List KeyOrder) : orders.headD {} = orders.getD 0 {} := by
  cases orders <;> rfl

theorem getD_tail (orders : List KeyOrder) (i : Nat) :
    orders.tail.getD i {} = orders.getD (i + 1) {} := by
  cases orders <;> rfl

/-- Keys in front that tie leave the order to the others. -/
theorem tupleLess_append (h : tupleTies as bs = true) :
    tupleLess orders (as ++ cs) (bs ++ ds) = tupleLess (orders.drop as.length) cs ds := by
  induction as generalizing orders bs with
  | nil =>
    cases bs with
    | nil => rfl
    | cons => cases h
  | cons a as ih =>
    cases bs with
    | nil => cases h
    | cons b bs =>
      rw [tupleTies, Bool.and_eq_true] at h
      rw [List.cons_append, List.cons_append, tupleLess_cons, before?_of_ties h.1, Option.getD_none,
        ih h.2, List.length_cons, ← List.drop_tail]

theorem tupleLess_of_ties (h : tupleTies as bs = true) : tupleLess orders as bs = false := by
  have empty : tupleLess orders (as ++ []) (bs ++ []) = tupleLess (orders.drop as.length) [] [] :=
    tupleLess_append h
  rwa [List.append_nil, List.append_nil] at empty

theorem length_of_ties (h : tupleTies as bs = true) : as.length = bs.length := by
  induction as generalizing bs with
  | nil =>
    cases bs with
    | nil => rfl
    | cons => cases h
  | cons a as ih =>
    cases bs with
    | nil => cases h
    | cons b bs =>
      rw [tupleTies, Bool.and_eq_true] at h
      rw [List.length_cons, List.length_cons, ih h.2]

theorem tupleTies_comm (as bs : List SortKey) : tupleTies as bs = tupleTies bs as := by
  induction as generalizing bs with
  | nil => cases bs <;> rfl
  | cons a as ih =>
    cases bs with
    | nil => rfl
    | cons b bs => rw [tupleTies, tupleTies, ties_comm, ih]

/-- Tuples of integers, booleans and NULLs that no key tells apart tie. -/
theorem tupleTies_of_incomparable {width : Nat} (ha : IntegralTuple width as)
    (hb : IntegralTuple width bs) (h : Incomparable (tupleLess orders) as bs) :
    tupleTies as bs = true := by
  induction width generalizing orders as bs with
  | zero =>
    rw [List.length_eq_zero_iff.mp ha.length, List.length_eq_zero_iff.mp hb.length]
    rfl
  | succ width ih =>
    obtain ⟨a, as, rfl⟩ := List.exists_cons_of_length_eq_add_one ha.length
    obtain ⟨b, bs, rfl⟩ := List.exists_cons_of_length_eq_add_one hb.length
    have later (k : SortKey) (ks : List SortKey) (hk : IntegralTuple (width + 1) (k :: ks)) :
        IntegralTuple width ks :=
      ⟨Nat.succ.inj hk.length, fun x hx => hk.integral x (by simp [hx])⟩
    obtain ⟨hba, hab⟩ := h
    unfold InOrder at hab hba
    rw [tupleLess_cons] at hab hba
    rw [before?_swap] at hba
    cases first : before? (orders.headD {}) a b with
    | some before =>
      rw [first] at hab hba
      cases before with
      | true => cases hab
      | false => cases hba
    | none =>
      rw [first] at hab hba
      have rest := ih (later a as ha) (later b bs hb) ⟨hba, hab⟩
      rw [tupleTies, ties_of_before? (ha.integral a (by simp)) (hb.integral b (by simp)) first, rest]
      rfl

theorem tupleTies_iff_incomparable {width : Nat} (ha : IntegralTuple width as)
    (hb : IntegralTuple width bs) :
    Incomparable (tupleLess orders) as bs ↔ tupleTies as bs = true :=
  ⟨tupleTies_of_incomparable ha hb, fun h =>
    ⟨tupleLess_of_ties ((tupleTies_comm bs as).trans h), tupleLess_of_ties h⟩⟩

/-- Tuples of integers, booleans and NULLs do not go round in a circle. -/
theorem tupleLess_transitiveOn_integral (orders : List KeyOrder) (width : Nat) :
    TransitiveOn (tupleLess orders) (IntegralTuple width) := by
  refine tupleLess_transitiveOn (fun t ht => ht.length) fun k => ?_
  refine goesBefore_transitiveOn _ .integral fun x hx => ?_
  obtain ⟨t, ht, hx⟩ := hx
  exact ht.integral x (List.mem_of_getElem? hx)

/-- Where the keys in front tie, a NULL stands on the side that its key says. -/
theorem tupleLess_null (h : tupleTies as bs = true) (ha : a.isNull = true) (hb : b.isNull = false) :
    tupleLess orders (as ++ a :: cs) (bs ++ b :: ds) =
        ((orders.getD as.length {}).nulls == .first) ∧
      tupleLess orders (bs ++ b :: ds) (as ++ a :: cs) =
        ((orders.getD as.length {}).nulls == .last) := by
  have place : (orders.drop as.length).headD {} = orders.getD as.length {} := by
    rw [headD_eq_getD, List.getD_eq_getElem?_getD, List.getElem?_drop, Nat.add_zero,
      ← List.getD_eq_getElem?_getD]
  have first : before? (orders.getD as.length {}) a b =
      some ((orders.getD as.length {}).nulls == .first) := by
    rw [before?, less_of_isNull (.inl ha), ha, hb]
  constructor
  · rw [tupleLess_append h, tupleLess_cons, place, first]
    rfl
  · rw [tupleLess_append ((tupleTies_comm bs as).trans h), tupleLess_cons, ← length_of_ties h, place,
      before?_swap, first]
    cases (orders.getD as.length {}).nulls <;> rfl

/-- Orders that are turned round turn the tuples round. -/
theorem tupleLess_reverse {reversed : List KeyOrder}
    (h : ∀ i < as.length, reversed.getD i {} = (orders.getD i {}).reverse) :
    tupleLess reversed as bs = tupleLess orders bs as := by
  induction as generalizing orders reversed bs with
  | nil => cases bs <;> rfl
  | cons a as ih =>
    cases bs with
    | nil => rfl
    | cons b bs =>
      have first : reversed.headD {} = (orders.headD {}).reverse := by
        rw [headD_eq_getD, headD_eq_getD]
        exact h 0 (by simp)
      have rest : tupleLess reversed.tail as bs = tupleLess orders.tail bs as := by
        refine ih fun i hi => ?_
        rw [getD_tail, getD_tail]
        exact h (i + 1) (by simpa using hi)
      rw [tupleLess_cons, tupleLess_cons, first, before?_reverse, rest]

/-- Whatever directions and placements are given, and for however many keys, of two tuples at most one
sorts before the other. Tuples of one width of integers, booleans and NULLs are in a strict weak
order, and it leaves those open that tie. Behind keys that tie, a NULL stands on the side that its
placement says, whatever the direction. If both lists cover all keys, turning all of their entries
round turns the order round. -/
theorem tupleLess_strictWeakOrder (directions : List Direction) (nulls : List NullPlacement) :
    let orders := KeyOrder.ofLists directions nulls
    (∀ as, tupleLess orders as as = false) ∧
    (∀ as bs, tupleLess orders as bs = true → tupleLess orders bs as = false) ∧
    (∀ width as bs cs, IntegralTuple width as → IntegralTuple width bs → IntegralTuple width cs →
      (tupleLess orders as bs = true → tupleLess orders bs cs = true →
        tupleLess orders as cs = true) ∧
      (Incomparable (tupleLess orders) as bs → Incomparable (tupleLess orders) bs cs →
        Incomparable (tupleLess orders) as cs) ∧
      (Incomparable (tupleLess orders) as bs ↔ tupleTies as bs = true)) ∧
    (∀ as bs cs ds a b, tupleTies as bs = true → a.isNull = true → b.isNull = false →
      let place := (KeyOrder.ofListsAt directions nulls as.length).nulls
      tupleLess orders (as ++ a :: cs) (bs ++ b :: ds) = (place == .first) ∧
        tupleLess orders (bs ++ b :: ds) (as ++ a :: cs) = (place == .last)) ∧
    ∀ as bs : List SortKey, as.length ≤ directions.length → as.length ≤ nulls.length →
      tupleLess (KeyOrder.ofLists (directions.map .reverse) (nulls.map .reverse)) as bs =
        tupleLess orders bs as := by
  intro orders
  have asymm : Asymmetric (tupleLess orders) := tupleLess_asymmetric orders
  refine ⟨asymm.irrefl, asymm, fun width as bs cs ha hb hc => ⟨?_, ?_, ?_⟩, ?_, ?_⟩
  · exact (tupleLess_transitiveOn_integral orders width).less_trans asymm ha hb hc
  · exact (tupleLess_transitiveOn_integral orders width).incomparable_trans ha hb hc
  · exact tupleTies_iff_incomparable ha hb
  · intro as bs cs ds a b ties ha hb
    dsimp only
    rw [← KeyOrder.getD_ofLists]
    exact tupleLess_null ties ha hb
  · intro as bs hd hn
    refine tupleLess_reverse fun i hi => ?_
    rw [KeyOrder.getD_ofLists, KeyOrder.getD_ofLists]
    exact KeyOrder.ofListsAt_reverse directions nulls (hi.trans_le hd) (hi.trans_le hn)

/-- Descending by the first key alone, `TRUE` ties with 1 and is behind 2, and the NULL behind `TRUE`
goes first. -/
theorem tupleLess_strictWeakOrder_descending :
    let two := [integer 2 "2", integer 7 "7"]
    let one := [integer 1 "1", integer 7 "7"]
    let yes := [boolean true, null]
    let orders := KeyOrder.ofLists [.desc] []
    IntegralTuple 2 two ∧ IntegralTuple 2 one ∧ IntegralTuple 2 yes ∧
      tupleLess orders two yes = true ∧ tupleLess orders yes one = true ∧
      tupleLess orders two one = true := by
  intro two one yes orders
  have integral {a b : SortKey} (ha : a.IsIntegral) (hb : b.IsIntegral) : IntegralTuple 2 [a, b] :=
    ⟨rfl, List.forall_mem_cons.mpr ⟨ha, List.forall_mem_singleton.mpr hb⟩⟩
  have htwo : IntegralTuple 2 two := integral (.inr rfl) (.inr rfl)
  have hone : IntegralTuple 2 one := integral (.inr rfl) (.inr rfl)
  have hyes : IntegralTuple 2 yes := integral (.inr rfl) (.inl rfl)
  obtain ⟨-, -, order, null, -⟩ := tupleLess_strictWeakOrder [.desc] []
  have yes_one : tupleLess orders yes one = true :=
    (null [boolean true] [integer 1 "1"] [] [] .null (integer 7 "7") rfl rfl rfl).1
  have two_yes : tupleLess orders two yes = true := by decide +kernel
  exact ⟨htwo, hone, hyes, two_yes, yes_one, (order 2 two yes one htwo hyes hone).1 two_yes yes_one⟩

end SortKey

end TableQuery
