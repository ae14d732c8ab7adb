import TableQuery.Proofs.Table.Rectangular

/-!
# Multiplicities of records

Set operations and `DISTINCT` look at the keys of records only. Each of them keeps the records of
its source by one rule, which knows for every record how many records of its key come before it and
how many the other side has. How often a key occurs in the result, which records represent it and in
which order follow from that rule.
-/

namespace TableQuery

open Calendar

/-! ## Rules -/

namespace SetOp

/-- Whether a set operation keeps a record, given how many records of its key the right side has and
how many records of the source with its key come before it. -/
def keeps : SetOp → Bool → (others rank : Nat) → Bool
  | .union, true, _, _ => true
  | .union, false, _, rank => rank == 0
  | .except, true, others, rank => others ≤ rank
  | .except, false, others, rank => others == 0 && rank == 0
  | .intersect, true, others, rank => rank < others
  | .intersect, false, others, rank => others != 0 && rank == 0

/-- How many records of a key a set operation gives, of `m` on the left and `n` on the right. -/
def multiplicity : SetOp → Bool → (m n : Nat) → Nat
  | .union, true, m, n => m + n
  | .union, false, m, n => if 0 < m + n then 1 else 0
  | .except, true, m, n => m - n
  | .except, false, m, n => if 0 < m ∧ n = 0 then 1 else 0
  | .intersect, true, m, n => min m n
  | .intersect, false, m, n => if 0 < m ∧ 0 < n then 1 else 0

/-- The things from which a set operation chooses: those of both sides in a union, else those of the
left side. -/
def source {α : Type} : SetOp → (as bs : List α) → List α
  | .union, as, bs => as ++ bs
  | .except, as, _ | .intersect, as, _ => as

end SetOp

namespace View

/-- How many records have a key. -/
def multiplicity (clock : Clock) (key : String) (rs : List Record) : Nat :=
  rs.countP fun r => keyOf clock r == key

/-- The records at the positions that are kept. -/
def pick (kept : Nat → Bool) (rs : List Record) : List Record :=
  (rs.zipIdx.filter fun (_, i) => kept i).map Prod.fst

/-- No record before the position has the key of the record there. -/
def FirstOfKey (clock : Clock) (rs : List Record) (i : Nat) : Prop :=
  ∀ j < i, rs[j]?.map (keyOf clock) ≠ rs[i]?.map (keyOf clock)

/-- The records that a rule keeps after records with the keys `before`. The rule is asked with the
key of a record and the number of records of that key in front of it. -/
def keepAfter (clock : Clock) (rule : String → Nat → Bool) (before : List String) :
    List Record → List Record
  | [] => []
  | r :: rs =>
    let key := keyOf clock r
    let rest := keepAfter clock rule (key :: before) rs
    if rule key (before.count key) then r :: rest else rest

variable {clock : Clock} {rule : String → Nat → Bool} {before : List String}

theorem multiplicity_append (key : String) (as bs : List Record) :
    multiplicity clock key (as ++ bs) = multiplicity clock key as + multiplicity clock key bs :=
  List.countP_append

theorem multiplicity_cons (key : String) (r : Record) (rs : List Record) :
    multiplicity clock key (r :: rs)
      = multiplicity clock key rs + if keyOf clock r == key then 1 else 0 :=
  List.countP_cons

theorem count_map_keyOf (key : String) (rs : List Record) :
    (rs.map (keyOf clock)).count key = multiplicity clock key rs := by
  rw [List.count_eq_countP, List.countP_map]
  rfl

/-! ## What a rule keeps -/

/-- The ranks of the records of one key are consecutive, and the rule decides about each. -/
theorem multiplicity_keepAfter (key : String) (before : List String) (rs : List Record) :
    multiplicity clock key (keepAfter clock rule before rs)
      = (List.range' (before.count key) (multiplicity clock key rs)).countP (rule key) := by
  induction rs generalizing before with
  | nil => rfl
  | cons r rs ih =>
    have rest := ih (keyOf clock r :: before)
    rw [keepAfter, multiplicity_cons key r rs]
    by_cases hkey : keyOf clock r = key
    · rw [hkey] at rest ⊢
      rw [List.count_cons_self] at rest
      rw [beq_self_eq_true, if_pos rfl, List.range'_succ, List.countP_cons, ← rest]
      split
      · rw [multiplicity_cons, hkey, beq_self_eq_true, if_pos rfl]
      · rfl
    · rw [List.count_cons_of_ne hkey] at rest
      rw [beq_false_of_ne hkey, if_neg Bool.false_ne_true, Nat.add_zero, ← rest]
      split
      · rw [multiplicity_cons, beq_false_of_ne hkey, if_neg Bool.false_ne_true, Nat.add_zero]
      · rfl

/-- What a rule keeps, position by position. -/
theorem keepAfter_eq_filter (before : List String) (rs : List Record) :
    keepAfter clock rule before rs
      = (rs.zipIdx.filter fun (r, i) => rule (keyOf clock r)
          (before.count (keyOf clock r) + multiplicity clock (keyOf clock r) (rs.take i))).map
        Prod.fst := by
  induction rs generalizing before with
  | nil => rfl
  | cons r rs ih =>
    have shifted : (r :: rs).zipIdx = (r, 0) :: rs.zipIdx.map fun (q, i) => (q, i + 1) := by
      rw [List.zipIdx_cons, List.zipIdx_succ]
    -- a later record has the first one before it, whether as a key or as a record
    have moved (q : Record) (i : Nat) :
        before.count (keyOf clock q) + multiplicity clock (keyOf clock q) ((r :: rs).take (i + 1))
          = (keyOf clock r :: before).count (keyOf clock q)
            + multiplicity clock (keyOf clock q) (rs.take i) := by
      rw [List.take_succ_cons, multiplicity_cons, List.count_cons]
      omega
    rw [keepAfter, shifted, List.filter_cons, List.filter_map, ih]
    simp only [Function.comp_def, moved, List.take_zero]
    rw [show multiplicity clock (keyOf clock r) [] = 0 from rfl, Nat.add_zero]
    split <;> simp [Function.comp_def]

theorem pick_sublist (kept : Nat → Bool) (rs : List Record) : (pick kept rs).Sublist rs := by
  have h := (List.filter_sublist (p := fun x : Record × Nat => kept x.2) (l := rs.zipIdx)).map
    Prod.fst
  rwa [List.zipIdx_map_fst] at h

/-- The positions that a rule keeps. -/
def keptPositions (clock : Clock) (rule : String → Nat → Bool) (rs : List Record) (i : Nat) :
    Bool :=
  rs[i]?.any fun r => rule (keyOf clock r) (multiplicity clock (keyOf clock r) (rs.take i))

theorem keepAfter_eq_pick (rs : List Record) :
    keepAfter clock rule [] rs = pick (keptPositions clock rule rs) rs := by
  rw [keepAfter_eq_filter, pick]
  refine congrArg _ (List.filter_congr fun ⟨r, i⟩ hx => ?_)
  have hx : rs[i]? = some r := List.mem_zipIdx_iff_getElem?.mp hx
  dsimp only [keptPositions]
  rw [hx, List.count_nil, Nat.zero_add]
  rfl

/-- A record without others of its key before it is the first one of its key. -/
theorem firstOfKey_of_multiplicity {rs : List Record} {i : Nat} {r : Record}
    (hi : rs[i]? = some r) (h : multiplicity clock (keyOf clock r) (rs.take i) = 0) :
    FirstOfKey clock rs i := by
  intro j hj same
  rw [hi] at same
  obtain ⟨q, hq, hkey⟩ := Option.map_eq_some_iff.mp same
  have hmem : q ∈ rs.take i := by
    refine List.mem_of_getElem? (i := j) ?_
    rw [List.getElem?_take_of_lt hj, hq]
  exact absurd (beq_iff_eq.mpr hkey) (List.countP_eq_zero.mp h q hmem)

/-- What is known about the records that an operation chooses from a source: they are records at
some of its positions, the first ones of their keys if `unique`, and there are so many of each key.
-/
structure Chooses (clock : Clock) (source result : List Record) (unique : Prop)
    (count : String → Nat) : Prop where
  subsequence : result.Sublist source
  picked : ∃ kept, result = pick kept source ∧
    (unique → ∀ i < source.length, kept i = true → FirstOfKey clock source i)
  multiplicity : ∀ key, multiplicity clock key result = count key

/-- A rule chooses records from its source. -/
theorem keepAfter_chooses {unique : Prop} {count : String → Nat} (rs : List Record)
    (first : unique → ∀ key rank, rule key rank = true → rank = 0)
    (counted : ∀ key, (List.range (View.multiplicity clock key rs)).countP (rule key) = count key) :
    Chooses clock rs (keepAfter clock rule [] rs) unique count where
  subsequence := by
    rw [keepAfter_eq_pick]
    exact pick_sublist _ rs
  picked := by
    refine ⟨_, keepAfter_eq_pick rs, fun hu i hi hk => ?_⟩
    have hat : rs[i]? = some rs[i] := List.getElem?_eq_getElem hi
    rw [keptPositions, hat] at hk
    exact firstOfKey_of_multiplicity hat (first hu _ _ hk)
  multiplicity key := by
    rw [multiplicity_keepAfter, List.count_nil, ← List.range_eq_range']
    exact counted key

/-! ## The operations as rules -/

/-- Keeping the records of other keys than those seen, of the keys that pass a test, is keeping the
first ones. -/
theorem uniqueFrom_filter {p : String → Bool} {seen : List String}
    (h : ∀ key, p key = true → (key ∈ seen ↔ key ∈ before)) (rs : List Record) :
    uniqueFrom clock seen (rs.filter fun r => p (keyOf clock r))
      = keepAfter clock (fun key rank => p key && rank == 0) before rs := by
  induction rs generalizing seen before with
  | nil => rfl
  | cons r rs ih =>
    have counted : (before.count (keyOf clock r) == 0) = !before.contains (keyOf clock r) := by
      rw [Bool.eq_iff_iff, beq_iff_eq, List.count_eq_zero]
      simp
    rw [keepAfter]
    cases hp : p (keyOf clock r) with
    | false =>
      rw [List.filter_cons_of_neg (by rw [hp]; exact Bool.false_ne_true), Bool.false_and,
        if_neg Bool.false_ne_true]
      refine ih fun key hkey => (h key hkey).trans ?_
      have other : key ≠ keyOf clock r := fun same => by simp [same, hp] at hkey
      rw [List.mem_cons]
      exact ⟨.inr, fun hm => hm.resolve_left other⟩
    | true =>
      rw [List.filter_cons_of_pos (p := fun r => p (keyOf clock r)) hp, uniqueFrom, Bool.true_and,
        counted]
      have seenIff := h _ hp
      by_cases hseen : keyOf clock r ∈ before
      · rw [if_pos (List.contains_iff_mem.mpr (seenIff.mpr hseen)),
          if_neg (by simpa using hseen)]
        refine ih fun key hkey => (h key hkey).trans ?_
        rw [List.mem_cons]
        exact ⟨.inr, fun hm => hm.elim (fun same => same ▸ hseen) id⟩
      · rw [if_neg (fun hc => hseen (seenIff.mp (List.contains_iff_mem.mp hc))),
          if_pos (by simpa using hseen)]
        refine congrArg _ (ih fun key hkey => ?_)
        rw [List.mem_cons, List.mem_cons, h key hkey]

theorem unique_filter (clock : Clock) (p : String → Bool) (rs : List Record) :
    unique clock (rs.filter fun r => p (keyOf clock r))
      = keepAfter clock (fun key rank => p key && rank == 0) [] rs :=
  uniqueFrom_filter (fun _ _ => Iff.rfl) rs

theorem unique_eq_keepAfter (rs : List Record) :
    unique clock rs = keepAfter clock (fun _ rank => rank == 0) [] rs := by
  have h := unique_filter clock (fun _ => true) rs
  rw [List.filter_eq_self.mpr fun _ _ => rfl] at h
  simp only [Bool.true_and] at h
  exact h

/-- How many of the others' keys are left after records with the keys `before` have used them up. -/
def LeftOver (total : String → Nat) (before others : List String) : Prop :=
  ∀ key, others.count key = total key - before.count key

namespace LeftOver

variable {total : String → Nat} {others : List String}

theorem contains_eq (h : LeftOver total before others) (key : String) :
    others.contains key = decide (before.count key < total key) := by
  have here := h key
  rw [Bool.eq_iff_iff, List.contains_iff_mem, decide_eq_true_eq, ← List.count_pos_iff]
  omega

/-- The next record uses up one of its key, if there is one left. -/
theorem erase (h : LeftOver total before others) (key : String) :
    LeftOver total (key :: before) (others.erase key) := by
  intro other
  rw [List.count_erase, List.count_cons, h other]
  omega

theorem keep (h : LeftOver total before others) {key : String} (hk : others.contains key = false) :
    LeftOver total (key :: before) others := by
  have missing : key ∉ others := fun hm => by simp [hm] at hk
  have next := h.erase key
  rwa [List.erase_of_not_mem missing] at next

end LeftOver

/-- Cancelling one record for each of the others' keeps those with as many before them. -/
theorem subtractAll_eq_keepAfter {total : String → Nat} {others : List String}
    (h : LeftOver total before others) (rs : List Record) :
    subtractAll clock others rs
      = keepAfter clock (fun key rank => decide (total key ≤ rank)) before rs := by
  induction rs generalizing others before with
  | nil => rfl
  | cons r rs ih =>
    have here := h.contains_eq (keyOf clock r)
    rw [subtractAll, keepAfter]
    cases hc : others.contains (keyOf clock r) with
    | true =>
      rw [hc, eq_comm, decide_eq_true_eq] at here
      rw [if_pos rfl, if_neg (by simpa using here)]
      exact ih (h.erase _)
    | false =>
      rw [hc, eq_comm, decide_eq_false_iff_not, Nat.not_lt] at here
      rw [if_neg Bool.false_ne_true, if_pos (decide_eq_true here)]
      exact congrArg _ (ih (h.keep hc))

/-- Accepting one record for each of the others' keeps those with fewer before them. -/
theorem commonAll_eq_keepAfter {total : String → Nat} {others : List String}
    (h : LeftOver total before others) (rs : List Record) :
    commonAll clock others rs
      = keepAfter clock (fun key rank => decide (rank < total key)) before rs := by
  induction rs generalizing others before with
  | nil => rfl
  | cons r rs ih =>
    have here := h.contains_eq (keyOf clock r)
    rw [commonAll, keepAfter]
    cases hc : others.contains (keyOf clock r) with
    | true =>
      rw [hc] at here
      rw [if_pos rfl, if_pos here.symm]
      exact congrArg _ (ih (h.erase _))
    | false =>
      rw [hc] at here
      rw [if_neg Bool.false_ne_true, if_neg (by rw [← here]; exact Bool.false_ne_true)]
      exact ih (h.keep hc)

/-- Keeping everything. -/
theorem keepAfter_true (before : List String) (rs : List Record) :
    keepAfter clock (fun _ _ => true) before rs = rs := by
  induction rs generalizing before with
  | nil => rfl
  | cons r rs ih => rw [keepAfter, if_pos rfl, ih]

theorem contains_map_keyOf (key : String) (bs : List Record) :
    (bs.map (keyOf clock)).contains key = (multiplicity clock key bs != 0) := by
  rw [Bool.eq_iff_iff, List.contains_iff_mem, bne_iff_ne, ← count_map_keyOf, ← Nat.pos_iff_ne_zero,
    List.count_pos_iff]

/-- Every set operation keeps the records of its source by its rule. -/
theorem combinedRecords_eq_keepAfter (clock : Clock) (op : SetOp) (all : Bool)
    (as bs : List Record) :
    combinedRecords clock op all as bs
      = keepAfter clock (fun key => op.keeps all (multiplicity clock key bs)) []
          (op.source as bs) := by
  have left : LeftOver (fun key => multiplicity clock key bs) [] (bs.map (keyOf clock)) :=
    fun key => count_map_keyOf key bs
  cases op <;> cases all
  case union.false => exact unique_eq_keepAfter _
  case union.true => exact (keepAfter_true [] _).symm
  case except.true => exact subtractAll_eq_keepAfter left as
  case intersect.true => exact commonAll_eq_keepAfter left as
  case except.false =>
    refine .trans ?_ (unique_filter clock (fun key => multiplicity clock key bs == 0) as)
    simp only [combinedRecords, unique, contains_map_keyOf, bne, Bool.not_not]
  case intersect.false =>
    refine .trans ?_ (unique_filter clock (fun key => multiplicity clock key bs != 0) as)
    simp only [combinedRecords, unique, contains_map_keyOf]

/-! ## Multiplicities -/

/-- Of ranks below `m` as many are below `n`. -/
theorem countP_range_lt (m n : Nat) :
    (List.range m).countP (fun rank => decide (rank < n)) = min m n := by
  induction m with
  | zero => simp
  | succ m ih =>
    rw [List.range_succ, List.countP_append, ih, List.countP_singleton]
    by_cases h : m < n <;> simp [h] <;> omega

theorem countP_range_le (m n : Nat) :
    (List.range m).countP (fun rank => decide (n ≤ rank)) = m - n := by
  induction m with
  | zero => simp
  | succ m ih =>
    rw [List.range_succ, List.countP_append, ih, List.countP_singleton]
    by_cases h : n ≤ m <;> simp [h] <;> omega

theorem countP_range_zero (m : Nat) :
    (List.range m).countP (fun rank => rank == 0) = if 0 < m then 1 else 0 := by
  cases m with
  | zero => rfl
  | succ m =>
    have later : (List.range m).countP (fun rank => rank + 1 == 0) = 0 :=
      List.countP_eq_zero.mpr fun _ _ => by simp
    rw [List.range_succ_eq_map, List.countP_cons, List.countP_map]
    exact congrArg (· + 1) later

/-- A rule keeps as many records of a key as it should. -/
theorem countP_keeps (op : SetOp) (all : Bool) (key : String) (as bs : List Record) :
    (List.range (multiplicity clock key (op.source as bs))).countP
        (op.keeps all (multiplicity clock key bs))
      = op.multiplicity all (multiplicity clock key as) (multiplicity clock key bs) := by
  cases op <;> cases all <;> simp only [SetOp.source, SetOp.multiplicity, multiplicity_append]
  case union.true => exact (List.countP_eq_length.mpr fun _ _ => rfl).trans List.length_range
  case union.false => exact countP_range_zero _
  case except.true => exact countP_range_le _ _
  case intersect.true => exact countP_range_lt _ _
  case except.false =>
    cases multiplicity clock key bs with
    | zero => exact (countP_range_zero _).trans (by simp)
    | succ n => exact (List.countP_eq_zero.mpr fun _ _ => Bool.false_ne_true).trans (by simp)
  case intersect.false =>
    cases multiplicity clock key bs with
    | zero => exact (List.countP_eq_zero.mpr fun _ _ => Bool.false_ne_true).trans (by simp)
    | succ n => exact (countP_range_zero _).trans (by simp)

/-- Every set operation chooses records from its source, as many as it should. -/
theorem combinedRecords_chooses (clock : Clock) (op : SetOp) (all : Bool) (as bs : List Record) :
    Chooses clock (op.source as bs) (combinedRecords clock op all as bs) (all = false) fun key =>
      op.multiplicity all (multiplicity clock key as) (multiplicity clock key bs) := by
  rw [combinedRecords_eq_keepAfter]
  refine keepAfter_chooses _ (fun unique key rank hkept => ?_) fun key => countP_keeps op all key ..
  subst unique
  cases op with
  | union => exact beq_iff_eq.mp hkept
  | except => exact beq_iff_eq.mp (Bool.and_eq_true_iff.mp hkept).2
  | intersect => exact beq_iff_eq.mp (Bool.and_eq_true_iff.mp hkept).2

/-- With `ALL`, what is common and what is left after a subtraction are complementary. -/
theorem combinedRecords_complementary (clock : Clock) (as bs : List Record) :
    ∃ kept, combinedRecords clock .intersect true as bs = pick kept as ∧
      combinedRecords clock .except true as bs = pick (fun i => !kept i) as := by
  let common := fun key => SetOp.keeps .intersect true (multiplicity clock key bs)
  refine ⟨keptPositions clock common as, ?_, ?_⟩
  · rw [combinedRecords_eq_keepAfter]
    exact keepAfter_eq_pick as
  · rw [combinedRecords_eq_keepAfter]
    refine (keepAfter_eq_pick as).trans (congrArg _ (List.filter_congr fun ⟨r, i⟩ hx => ?_))
    have hx : as[i]? = some r := List.mem_zipIdx_iff_getElem?.mp hx
    dsimp only [keptPositions]
    rw [hx, Option.any_some, Option.any_some, Bool.eq_iff_iff]
    simp [SetOp.keeps, common]

theorem unique_chooses (clock : Clock) (rs : List Record) :
    Chooses clock rs (unique clock rs) True fun key =>
      if 0 < multiplicity clock key rs then 1 else 0 := by
  rw [unique_eq_keepAfter]
  exact keepAfter_chooses rs (fun _ _ _ hkept => beq_iff_eq.mp hkept) fun key => countP_range_zero _

/-! ## Views -/

/-- The records of a view with the selected columns, all of them if none are selected. -/
def projected (v : View) : List Record :=
  v.records.map fun r => r.project (v.selected.getD (List.range v.header.width))

theorem project_range (r : Record) : r.project (List.range r.width) = r := by
  refine congrArg Record.mk (List.ext_getElem ?_ fun i hi hj => ?_)
  · rw [List.length_map, List.length_range]
    rfl
  · rw [List.getElem_map, List.getElem_range, List.getElem?_eq_getElem hj, Option.getD_some]

/-- All columns of a rectangular view are its records. -/
theorem projected_of_unselected {v : View} (hv : v.Rectangular) (hs : v.selected = none) :
    v.projected = v.records := by
  rw [projected, hs, Option.getD_none]
  refine (List.map_congr_left fun r hr => ?_).trans (List.map_id _)
  rw [← hv r hr, project_range, id]

/-- What set operations and `DISTINCT` do to views. A set operation of views that are equally wide
chooses from the records of both (`UNION`) or of the left one (`EXCEPT`, `INTERSECT`), of each key as
many as `SetOp.multiplicity` says, and without `ALL` the first one of its key. What `INTERSECT ALL`
and `EXCEPT ALL` keep is complementary. `DISTINCT` keeps the first record of each key. -/
theorem combine_multiplicities (clock : Clock) (expression : String) (a b : View) :
    (a.header.width ≠ b.header.width → ∀ op all,
      combine clock op all expression a b
        = .error (.combinedWidth expression a.header.width)) ∧
    (a.header.width = b.header.width →
      (∀ op all, ∃ c, combine clock op all expression a b = .ok c ∧ c.header = a.header ∧
        Chooses clock (op.source a.records b.records) c.records (all = false) fun key =>
          op.multiplicity all (multiplicity clock key a.records)
            (multiplicity clock key b.records)) ∧
      ∃ common rest kept, combine clock .intersect true expression a b = .ok common ∧
        combine clock .except true expression a b = .ok rest ∧
        common.records = pick kept a.records ∧
        rest.records = pick (fun i => !kept i) a.records) ∧
    Chooses clock a.projected (a.distinct clock).records True (fun key =>
      if 0 < multiplicity clock key a.projected then 1 else 0) ∧
    (a.Rectangular → a.selected = none → a.projected = a.records) := by
  have combined (hwidth : a.header.width = b.header.width) (op : SetOp) (all : Bool) :
      combine clock op all expression a b
        = .ok { a with records := combinedRecords clock op all a.records b.records } := by
    rw [combine, hwidth, bne_self_eq_false, if_neg Bool.false_ne_true]
  refine ⟨fun hwidth op all => ?_, fun hwidth => ⟨fun op all => ?_, ?_⟩, ?_, ?_⟩
  · rw [combine, if_pos (bne_iff_ne.mpr hwidth)]
  · exact ⟨_, combined hwidth op all, rfl, combinedRecords_chooses clock op all _ _⟩
  · obtain ⟨kept, common, rest⟩ := combinedRecords_complementary clock a.records b.records
    exact ⟨_, _, kept, combined hwidth _ _, combined hwidth _ _, common, rest⟩
  · exact unique_chooses clock a.projected
  · exact projected_of_unselected

end View

end TableQuery
