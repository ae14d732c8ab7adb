import TableQuery.Function.Aggregate
import TableQuery.Proofs.Value.Transitivity

/-!
# Distinct values

`DISTINCT` keeps a value unless an equivalent one was kept before, so each value is compared only with
those kept. Equivalence is neither reflexive nor transitive on all values, so there are no classes of
which one member each could be kept. Still there is exactly one choice of values that are apart from
each other and stand for all others, and it is the one that is kept.
-/

namespace TableQuery

open Calendar

/-- Values of a list, with their places in it, that stand for all of them. -/
structure Represents (clock : Clock) (vs : List Value) (kept : List (Value × Nat)) : Prop where
  /-- Each is the value at its place, and they come in the order of the list. -/
  sublist : kept.Sublist vs.zipIdx
  /-- None is equivalent to an earlier one. -/
  apart : kept.Pairwise fun k l => k.1.equivalent clock l.1 ≠ .yes
  /-- A value that is not among them is equivalent to one that stands before it in the list. -/
  covers : ∀ x ∈ vs.zipIdx, x ∉ kept → ∃ k ∈ kept, k.2 < x.2 ∧ k.1.equivalent clock x.1 = .yes

section

variable {clock : Clock} {vs us : List Value} {v : Value} {kept ks : List (Value × Nat)}

/-! ## One value more -/

theorem distinctFrom_append (clock : Clock) (us vs ws : List Value) :
    distinctFrom clock us (vs ++ ws) = distinctFrom clock (distinctFrom clock us vs) ws := by
  induction vs generalizing us with
  | nil => rfl
  | cons v vs ih =>
    rw [List.cons_append, distinctFrom, distinctFrom]
    split
    · exact ih us
    · exact ih (us ++ [v])

theorem distinctValues_of_any (h : ∃ u ∈ distinctValues clock vs, u.equivalent clock v = .yes) :
    distinctValues clock (vs ++ [v]) = distinctValues clock vs := by
  obtain ⟨u, hu, same⟩ := h
  rw [distinctValues, distinctFrom_append]
  exact if_pos (List.any_eq_true.mpr ⟨u, hu, Truth.holds_iff.mpr same⟩)

theorem distinctValues_of_none (h : ∀ u ∈ distinctValues clock vs, u.equivalent clock v ≠ .yes) :
    distinctValues clock (vs ++ [v]) = distinctValues clock vs ++ [v] := by
  rw [distinctValues, distinctFrom_append]
  refine if_neg fun found => ?_
  obtain ⟨u, hu, same⟩ := List.any_eq_true.mp found
  exact h u hu (Truth.holds_iff.mp same)

theorem zipIdx_concat (vs : List Value) (v : Value) :
    (vs ++ [v]).zipIdx = vs.zipIdx ++ [(v, vs.length)] := by
  rw [List.zipIdx_append]
  simp

theorem lt_of_mem_zipIdx {x : Value × Nat} (hx : x ∈ vs.zipIdx) : x.2 < vs.length := by
  have bound := List.snd_lt_add_of_mem_zipIdx hx
  omega

namespace Represents

theorem nil (clock : Clock) : Represents clock [] [] where
  sublist := List.Sublist.refl _
  apart := .nil
  covers := nofun

theorem lt_length (h : Represents clock vs kept) {k : Value × Nat} (hk : k ∈ kept) :
    k.2 < vs.length :=
  lt_of_mem_zipIdx (h.sublist.subset hk)

/-- A value that is equivalent to one of those kept is dropped. -/
theorem drop (h : Represents clock vs kept) (there : ∃ k ∈ kept, k.1.equivalent clock v = .yes) :
    Represents clock (vs ++ [v]) kept where
  sublist := by
    rw [zipIdx_concat]
    exact h.sublist.trans (List.sublist_append_left _ _)
  apart := h.apart
  covers x hx dropped := by
    rw [zipIdx_concat, List.mem_append, List.mem_singleton] at hx
    obtain hx | rfl := hx
    · exact h.covers x hx dropped
    · obtain ⟨k, hk, same⟩ := there
      exact ⟨k, hk, h.lt_length hk, same⟩

/-- A value that is equivalent to none of those kept is kept, too. -/
theorem keep (h : Represents clock vs kept) (apart : ∀ k ∈ kept, k.1.equivalent clock v ≠ .yes) :
    Represents clock (vs ++ [v]) (kept ++ [(v, vs.length)]) where
  sublist := by
    rw [zipIdx_concat]
    exact h.sublist.append (List.Sublist.refl _)
  apart := by
    refine List.pairwise_append.mpr ⟨h.apart, List.pairwise_singleton .., fun k hk l hl => ?_⟩
    rw [List.mem_singleton.mp hl]
    exact apart k hk
  covers x hx dropped := by
    rw [zipIdx_concat, List.mem_append] at hx
    rw [List.mem_append, not_or] at dropped
    obtain ⟨k, hk, earlier⟩ := h.covers x (hx.resolve_right dropped.2) dropped.1
    exact ⟨k, List.mem_append_left _ hk, earlier⟩

/-- What stands for a list with one value more stands for the list, and the value is kept unless it is
equivalent to one of those kept. -/
theorem concat_cases (h : Represents clock (vs ++ [v]) kept) :
    (Represents clock vs kept ∧ ∃ k ∈ kept, k.1.equivalent clock v = .yes) ∨
      ∃ ks, kept = ks ++ [(v, vs.length)] ∧ Represents clock vs ks ∧
        ∀ k ∈ ks, k.1.equivalent clock v ≠ .yes := by
  have sublist := h.sublist
  rw [zipIdx_concat] at sublist
  obtain ⟨ks, last, rfl, initial, final⟩ := List.sublist_append_iff.mp sublist
  have inside {x : Value × Nat} (hx : x ∈ vs.zipIdx) : x ∈ (vs ++ [v]).zipIdx := by
    rw [zipIdx_concat]
    exact List.mem_append_left _ hx
  have outside {x : Value × Nat} (hx : x ∈ vs.zipIdx) : x ∉ last := fun hl => by
    have bound := lt_of_mem_zipIdx hx
    rw [List.mem_singleton.mp (final.subset hl)] at bound
    exact Nat.lt_irrefl _ bound
  have whole : Represents clock vs ks := {
    sublist := initial
    apart := (List.pairwise_append.mp h.apart).1
    covers := fun x hx dropped => by
      obtain ⟨k, hk, before, same⟩ := h.covers x (inside hx)
        fun hx' => (List.mem_append.mp hx').elim dropped (outside hx)
      refine ⟨k, (List.mem_append.mp hk).resolve_right fun hl => ?_, before, same⟩
      -- the last place is not before any other
      rw [List.mem_singleton.mp (final.subset hl)] at before
      exact Nat.lt_asymm before (lt_of_mem_zipIdx hx) }
  cases final with
  | cons _ none =>
    obtain rfl := List.sublist_nil.mp none
    rw [List.append_nil] at h ⊢
    refine .inl ⟨whole, ?_⟩
    have here : (v, vs.length) ∈ (vs ++ [v]).zipIdx := by
      rw [zipIdx_concat]
      exact List.mem_append_right _ (List.mem_singleton_self _)
    obtain ⟨k, hk, -, same⟩ := h.covers _ here fun hk => Nat.lt_irrefl _ (whole.lt_length hk)
    exact ⟨k, hk, same⟩
  | cons_cons _ none =>
    obtain rfl := List.sublist_nil.mp none
    exact .inr ⟨ks, rfl, whole, fun k hk =>
      (List.pairwise_append.mp h.apart).2.2 k hk _ (List.mem_singleton_self _)⟩

/-! ## The values that are kept -/

/-- Only one choice of values stands for a list. -/
theorem unique (h : Represents clock vs kept) (h' : Represents clock vs ks) : kept = ks := by
  induction vs using List.reverseRecOn generalizing kept ks with
  | nil => rw [List.sublist_nil.mp h.sublist, List.sublist_nil.mp h'.sublist]
  | append_singleton vs v ih =>
    obtain ⟨whole, k, hk, same⟩ | ⟨ks₁, rfl, whole, apart⟩ := h.concat_cases
    · obtain ⟨whole', -⟩ | ⟨ks₂, rfl, whole', apart'⟩ := h'.concat_cases
      · exact ih whole whole'
      · rw [ih whole whole'] at hk
        exact absurd same (apart' k hk)
    · obtain ⟨whole', k, hk, same⟩ | ⟨ks₂, rfl, whole', apart'⟩ := h'.concat_cases
      · rw [← ih whole whole'] at hk
        exact absurd same (apart k hk)
      · rw [ih whole whole']

end Represents

theorem exists_represents (clock : Clock) (vs : List Value) :
    ∃ kept, Represents clock vs kept ∧ distinctValues clock vs = kept.map Prod.fst := by
  induction vs using List.reverseRecOn with
  | nil => exact ⟨[], .nil clock, rfl⟩
  | append_singleton vs v ih =>
    obtain ⟨kept, represents, values⟩ := ih
    by_cases there : ∃ k ∈ kept, k.1.equivalent clock v = .yes
    · refine ⟨kept, represents.drop there, ?_⟩
      obtain ⟨k, hk, same⟩ := there
      rw [distinctValues_of_any ⟨k.1, by rw [values]; exact List.mem_map_of_mem hk, same⟩, values]
    · push Not at there
      refine ⟨kept ++ [(v, vs.length)], represents.keep there, ?_⟩
      rw [distinctValues_of_none, values, List.map_append, List.map_singleton]
      intro u hu
      rw [values] at hu
      obtain ⟨k, hk, rfl⟩ := List.mem_map.mp hu
      exact there k hk

/-- Values that are apart from each other are all kept. -/
theorem distinctFrom_of_pairwise
    (h : (us ++ vs).Pairwise fun u v => u.equivalent clock v ≠ .yes) :
    distinctFrom clock us vs = us ++ vs := by
  induction vs generalizing us with
  | nil => exact (List.append_nil us).symm
  | cons v vs ih =>
    have new : ¬ us.any fun u => (u.equivalent clock v).holds := fun found => by
      obtain ⟨u, hu, same⟩ := List.any_eq_true.mp found
      exact (List.pairwise_append.mp h).2.2 u hu v List.mem_cons_self (Truth.holds_iff.mp same)
    rw [distinctFrom, if_neg new, ih (by rwa [List.append_assoc, List.singleton_append]),
      List.append_assoc, List.singleton_append]

end

/-! ## Equivalence has no classes -/

theorem Value.equivalent_nan (clock : Clock) :
    (Value.nan false).equivalent clock (.nan false) = .unknown := by
  rw [Value.equivalent_self]
  rfl

/-- A numeral with a zero in front equals 1, which equals TRUE, but it is no truth itself. -/
theorem Value.equivalent_zero_one (clock : Clock) :
    (Value.text "01").equivalent clock (.integer 1) = .yes ∧
      (Value.integer 1).equivalent clock (.boolean true) = .yes ∧
      (Value.text "01").equivalent clock (.boolean true) = .unknown := by
  have integer : (Value.text "01").toInteger? = some 1 := by decide +kernel
  have boolean : (Value.text "01").toBoolean? = none := by decide +kernel
  refine ⟨?_, rfl, ?_⟩
  · exact (equivalent_iff_of_commonType (commonType?_of_integers integer rfl)).mpr
      ⟨1, 1, integer, rfl, rfl⟩
  · have comparison : (Value.text "01").compare clock (.boolean true) = .incommensurable := by
      rw [compare_eq, boolean]
      simp only [toInteger?, toFloat?, toMoment?, both_none]
      rfl
    rw [equivalent, test, comparison]
    rfl

/-- `DISTINCT` keeps the one choice of values that stand for the list: they come in its order, none is
equivalent to an earlier one, and each value that is dropped is to one kept before it. So nothing is
dropped from the result. All this holds although a value need not be equivalent to itself, nor two
values to each other that are equivalent to a third one. -/
theorem distinct_keeps_representatives (clock : Clock) :
    (∀ vs, ∃ kept, Represents clock vs kept ∧ distinctValues clock vs = kept.map Prod.fst ∧
      ∀ other, Represents clock vs other → other = kept) ∧
    (∀ vs, (distinctValues clock vs).Sublist vs ∧
      (distinctValues clock vs).Pairwise (fun u v => u.equivalent clock v ≠ .yes) ∧
      distinctValues clock (distinctValues clock vs) = distinctValues clock vs) ∧
    (∃ a : Value, a.equivalent clock a ≠ .yes) ∧
    ∃ a b c : Value, a.equivalent clock b = .yes ∧ b.equivalent clock c = .yes ∧
      a.equivalent clock c ≠ .yes := by
  refine ⟨fun vs => ?_, fun vs => ?_, ⟨.nan false, by rw [Value.equivalent_nan]; nofun⟩, ?_⟩
  · obtain ⟨kept, represents, values⟩ := exists_represents clock vs
    exact ⟨kept, represents, values, fun other h => h.unique represents⟩
  · obtain ⟨kept, represents, values⟩ := exists_represents clock vs
    have sublist := represents.sublist.map Prod.fst
    rw [List.zipIdx_map_fst, ← values] at sublist
    have apart : (distinctValues clock vs).Pairwise fun u v => u.equivalent clock v ≠ .yes := by
      rw [values]
      exact List.pairwise_map.mpr represents.apart
    exact ⟨sublist, apart, distinctFrom_of_pairwise apart⟩
  · obtain ⟨numeral, truth, neither⟩ := Value.equivalent_zero_one clock
    exact ⟨_, _, _, numeral, truth, by rw [neither]; nofun⟩

/-- Of 1, the numeral `1`, two NULLs and 2, the numeral and the second NULL are dropped. -/
theorem distinct_keeps_representatives_spelled :
    let vs : List Value := [.integer 1, .text "1", .null, .null, .integer 2]
    let kept : List (Value × Nat) := [(.integer 1, 0), (.null, 2), (.integer 2, 4)]
    Represents {} vs kept ∧ distinctValues {} vs = kept.map Prod.fst := by
  intro vs kept
  have one : Represents {} [.integer 1] [(.integer 1, 0)] :=
    (Represents.nil {}).keep (List.forall_mem_nil _)
  have numeral : Represents {} [.integer 1, .text "1"] [(.integer 1, 0)] :=
    one.drop ⟨_, List.mem_cons_self, by decide +kernel⟩
  have null : Represents {} [.integer 1, .text "1", .null] [(.integer 1, 0), (.null, 2)] :=
    numeral.keep (by decide +kernel)
  have nulls : Represents {} [.integer 1, .text "1", .null, .null] [(.integer 1, 0), (.null, 2)] :=
    null.drop ⟨(.null, 2), List.mem_cons_of_mem _ List.mem_cons_self, by decide +kernel⟩
  have represents : Represents {} vs kept := nulls.keep (by decide +kernel)
  obtain ⟨_, _, values, unique⟩ := (distinct_keeps_representatives {}).1 vs
  rw [← unique kept represents] at values
  exact ⟨represents, values⟩

end TableQuery
