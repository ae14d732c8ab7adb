import TableQuery.Proofs.Evaluation.Fields
import TableQuery.Proofs.Evaluation.Recursion
import TableQuery.Proofs.Evaluation.Results
import TableQuery.Proofs.Join.PairedColumns
import TableQuery.Proofs.Text.Upper

/-!
# Natural joins of tables

A `NATURAL` join puts the columns that two tables have in common in front, once each, and hides the
columns that they merge. Between the widths of the tables and the number of merged columns, every
index shifts; what a query sees of it are names. Each name that the tables have means one visible
column, and every qualified name still means the column that it meant in its table.
-/

namespace TableQuery

open Eval Text

/-! ## Names -/

/-- No two names are the same. -/
def DistinctNames (names : List String) : Prop :=
  names.Pairwise fun x y => sameIgnoringCase x y = false

/-- Whether a name is one of these. -/
def occursIn (names : List String) (name : String) : Bool :=
  names.any (sameIgnoringCase name)

/-- The names that two tables have in common, then the other ones of the first table, then those of
the second. -/
def naturalNames (as bs : List String) : List String :=
  as.filter (occursIn bs) ++ as.filter (fun x => !occursIn bs x) ++
    bs.filter fun y => !occursIn as y

/-- The places of the names that two tables have in common, in the order of the first table. -/
def commonPlaces (as bs : List String) : List (Nat × Nat) :=
  as.zipIdx.filterMap fun (x, i) => (bs.findIdx? (sameIgnoringCase x)).map fun j => (i, j)

section Names

variable {as bs : List String} {x y n : String} {i j : Nat}

theorem occursIn_iff : occursIn as n = true ↔ ∃ x ∈ as, sameIgnoringCase n x = true :=
  List.any_eq_true

theorem occursIn_same (h : sameIgnoringCase x y = true) : occursIn as x = occursIn as y := by
  refine Bool.eq_iff_iff.mpr ?_
  rw [occursIn_iff, occursIn_iff]
  constructor
  · rintro ⟨z, hz, same⟩
    exact ⟨z, hz, sameIgnoringCase_trans (sameIgnoringCase_symm h) same⟩
  · rintro ⟨z, hz, same⟩
    exact ⟨z, hz, sameIgnoringCase_trans h same⟩

/-- Where no two elements are related, an element is related to one place only. -/
theorem place_eq_of_pairwise {α : Type} {R : α → α → Prop} {xs : List α} {x y : α}
    (apart : xs.Pairwise fun x y => ¬ R x y) (symm : R x y → R y x) (hx : xs[i]? = some x)
    (hy : xs[j]? = some y) (related : R x y) : i = j := by
  obtain ⟨hi, rfl⟩ := List.getElem?_eq_some_iff.mp hx
  obtain ⟨hj, rfl⟩ := List.getElem?_eq_some_iff.mp hy
  have apart := List.pairwise_iff_getElem.mp apart
  rcases Nat.lt_trichotomy i j with before | same | after
  · exact absurd related (apart i j hi hj before)
  · exact same
  · exact absurd (symm related) (apart j i hj hi after)

/-- In a list of distinct names a name has one place. -/
theorem DistinctNames.place_eq (h : DistinctNames as) (hx : as[i]? = some x) (hy : as[j]? = some y)
    (same : sameIgnoringCase x y = true) : i = j :=
  place_eq_of_pairwise (h.imp fun apart => Bool.eq_false_iff.mp apart) sameIgnoringCase_symm hx hy
    same

theorem mem_commonPlaces (h : DistinctNames bs) : (i, j) ∈ commonPlaces as bs ↔
    ∃ x y, as[i]? = some x ∧ bs[j]? = some y ∧ sameIgnoringCase x y = true := by
  rw [commonPlaces, List.mem_filterMap]
  constructor
  · rintro ⟨⟨x, i'⟩, hx, hj⟩
    obtain ⟨j', found, place⟩ := Option.map_eq_some_iff.mp hj
    obtain ⟨rfl, rfl⟩ := Prod.mk.inj place
    obtain ⟨hlt, same, -⟩ := List.findIdx?_eq_some_iff_getElem.mp found
    exact ⟨x, bs[j'], List.mem_zipIdx_iff_getElem?.mp hx, List.getElem?_eq_getElem hlt, same⟩
  · rintro ⟨x, y, hx, hy, same⟩
    refine ⟨(x, i), List.mem_zipIdx_iff_getElem?.mpr hx, ?_⟩
    obtain ⟨hj, rfl⟩ := List.getElem?_eq_some_iff.mp hy
    have found : bs.findIdx? (sameIgnoringCase x) = some j := by
      refine List.findIdx?_eq_some_iff_getElem.mpr ⟨hj, same, fun k hk other => ?_⟩
      have lt : k < bs.length := Nat.lt_trans hk hj
      have place := h.place_eq (List.getElem?_eq_getElem lt) hy
        (sameIgnoringCase_trans (sameIgnoringCase_symm other) same)
      exact Nat.ne_of_lt hk place
    exact Option.map_eq_some_iff.mpr ⟨j, found, rfl⟩

/-- The names at the common places are the names in common. -/
theorem map_commonPlaces (as bs : List String) :
    (commonPlaces as bs).map (fun p => as.getD p.1 "") = as.filter (occursIn bs) := by
  have each : ∀ p ∈ as.zipIdx, (((bs.findIdx? (sameIgnoringCase p.1)).map fun j => (p.2, j)).map
      fun q => as.getD q.1 "") = Option.guard (occursIn bs) p.1 := by
    rintro ⟨x, i⟩ hx
    have hx : as[i]? = some x := List.mem_zipIdx_iff_getElem?.mp hx
    cases found : bs.findIdx? (sameIgnoringCase x) with
    | none =>
      have nowhere : ¬ occursIn bs x = true := by
        rw [occursIn_iff]
        rintro ⟨y, hy, same⟩
        rw [List.findIdx?_eq_none_iff.mp found y hy] at same
        cases same
      simp [Option.guard, nowhere]
    | some j =>
      obtain ⟨hj, same, -⟩ := List.findIdx?_eq_some_iff_getElem.mp found
      have somewhere : occursIn bs x = true := occursIn_iff.mpr ⟨_, List.getElem_mem hj, same⟩
      simp [Option.guard, somewhere, hx]
  have names : as.zipIdx.filterMap (fun p => Option.guard (occursIn bs) p.1) =
      (as.zipIdx.map Prod.fst).filterMap (Option.guard (occursIn bs)) := by
    rw [List.filterMap_map]
    rfl
  rw [commonPlaces, List.map_filterMap, List.filterMap_congr each, names, List.zipIdx_map_fst,
    List.filterMap_eq_filter]

/-- Each name of the tables occurs once. -/
theorem distinctNames_naturalNames (ha : DistinctNames as) (hb : DistinctNames bs) :
    DistinctNames (naturalNames as bs) := by
  refine List.pairwise_append.mpr ⟨List.pairwise_append.mpr ⟨ha.filter _, ha.filter _, ?_⟩,
    hb.filter _, ?_⟩
  · intro x hx y hy
    have common := (List.mem_filter.mp hx).2
    have other := (List.mem_filter.mp hy).2
    refine Bool.eq_false_iff.mpr fun same => ?_
    rw [← occursIn_same same, common] at other
    cases other
  · intro x hx y hy
    have other := (List.mem_filter.mp hy).2
    have first : x ∈ as :=
      (List.mem_append.mp hx).elim (fun h => List.mem_of_mem_filter h) fun h => List.mem_of_mem_filter h
    refine Bool.eq_false_iff.mpr fun same => ?_
    rw [occursIn_iff.mpr ⟨x, first, sameIgnoringCase_symm same⟩] at other
    cases other

end Names

/-! ## Lookups -/

/-- The elements that pass a test, found with their places. -/
theorem map_filter_zipIdx {α : Type} (xs : List α) (p : α → Bool) :
    (xs.zipIdx.filter fun x => p x.1).map Prod.fst = xs.filter p := by
  show (xs.zipIdx.filter (p ∘ Prod.fst)).map Prod.fst = _
  rw [← List.filter_map, List.zipIdx_map_fst]

namespace Header

theorem indicesWhere_append (g h : Header) (p : Column → Bool) :
    (g.append h).indicesWhere p = g.indicesWhere p ++ (h.indicesWhere p).map (g.width + ·) := by
  obtain ⟨cs⟩ := g
  obtain ⟨ds⟩ := h
  have shifted : ds.zipIdx cs.length = ds.zipIdx.map fun x => (x.1, cs.length + x.2) := by
    rw [List.zipIdx_eq_map_add]
  simp only [append, indicesWhere, width, List.zipIdx_append, Nat.zero_add, shifted,
    List.filter_append, List.map_append, List.filter_map, List.map_map]
  rfl

theorem indicesWhere_eq_nil {h : Header} {p : Column → Bool} (none : ∀ c ∈ h.columns, p c = false) :
    h.indicesWhere p = [] := by
  refine List.eq_nil_iff_forall_not_mem.mpr fun i hi => ?_
  obtain ⟨c, hc, pass⟩ := mem_indicesWhere.mp hi
  rw [none c (List.mem_of_getElem? hc)] at pass
  cases pass

/-- The columns at the indices of those that pass a test. -/
theorem project_indicesWhere (h : Header) (p : Column → Bool) :
    h.project (h.indicesWhere p) = ⟨h.columns.filter p⟩ := by
  have each : ∀ x ∈ h.columns.zipIdx.filter (fun x => p x.1),
      h.columns[x.2]? = some x.1 := fun x hx =>
    List.mem_zipIdx_iff_getElem?.mp (List.mem_of_mem_filter hx)
  refine congrArg Header.mk ?_
  rw [← map_filter_zipIdx, indicesWhere, List.filterMap_map, ← List.filterMap_eq_map]
  exact List.filterMap_congr each

section Visible

variable {h : Header}

/-- If the visible columns have distinct names and no aliases, each is found by its name. -/
theorem find?_visible (plain : ∀ c ∈ h.columns, c.aliases = [])
    (distinct : DistinctNames ((h.columns.filter fun c => !c.hidden).map Column.name)) {i : Nat}
    {c : Column} (hc : h.columns[i]? = some c) (visible : c.hidden = false) {n : String}
    (same : sameIgnoringCase c.name n = true) : h.find? none n = .ok (some i) := by
  have apart : h.columns.Pairwise fun c d =>
      ¬ (c.hidden = false ∧ d.hidden = false ∧ sameIgnoringCase c.name d.name = true) := by
    refine (List.pairwise_filter.mp (List.pairwise_map.mp distinct)).imp fun apart => ?_
    rintro ⟨hc, hd, same⟩
    rw [apart (by rw [hc]; rfl) (by rw [hd]; rfl)] at same
    cases same
  have meant_iff : ∀ d ∈ h.columns, d.isMeantBy none n = true ↔
      d.hidden = false ∧ sameIgnoringCase d.name n = true := by
    intro d hd
    simp [Column.isMeantBy, Column.hasAlias, plain d hd]
  refine find?_eq_some_iff_meant.mpr fun j => ⟨?_, ?_⟩
  · rintro ⟨d, hd, meant⟩
    obtain ⟨visible', same'⟩ := (meant_iff d (List.mem_of_getElem? hd)).mp meant
    exact place_eq_of_pairwise apart
      (fun both => ⟨both.2.1, both.1, sameIgnoringCase_symm both.2.2⟩) hd hc
      ⟨visible', visible, sameIgnoringCase_trans same' (sameIgnoringCase_symm same)⟩
  · rintro rfl
    exact ⟨c, hc, (meant_iff c (List.mem_of_getElem? hc)).mpr ⟨visible, same⟩⟩

/-- The names of the visible columns find these columns, in their order. -/
theorem mapM_find_visible (plain : ∀ c ∈ h.columns, c.aliases = [])
    (distinct : DistinctNames ((h.columns.filter fun c => !c.hidden).map Column.name)) :
    ((h.columns.filter fun c => !c.hidden).map Column.name).mapM (h.find none) =
      .ok (h.indicesWhere fun c => !c.hidden) := by
  refine mapM_eq_ok_iff.mpr ?_
  rw [← map_filter_zipIdx, indicesWhere, List.forall₂_map_left_iff, List.forall₂_map_left_iff,
    List.forall₂_map_right_iff]
  refine List.forall₂_same.mpr fun ⟨c, i⟩ mem => ?_
  obtain ⟨mem, visible⟩ := List.mem_filter.mp mem
  refine find_eq_ok_iff.mpr (find?_visible plain distinct (List.mem_zipIdx_iff_getElem?.mp mem) ?_
    (sameIgnoringCase_refl _))
  simpa using visible

end Visible

end Header

/-! ## Pairs of columns -/

/-- A column of a table, which a join may hide. -/
def Column.ofTable (table : String) (hides : String → Bool) (i : Nat) (name : String) : Column :=
  { table, name, number := i + 1, fromTable := true, hidden := hides name }

/-- The column that merges the columns of a name. -/
def Column.merging (name : String) : Column :=
  { name, fromTable := true, joined := true }

/-- The columns of a table, of which a join hides some. -/
def Header.ofTable (table : String) (hides : String → Bool) (names : List String) : Header :=
  ⟨names.mapIdx (Column.ofTable table hides)⟩

section Tables

variable {a b t n : String} {as bs : List String} {x y : String} {i j : Nat} {f g : String → Bool}

theorem ofNames_eq_ofTable (a : String) (as : List String) :
    Header.ofNames a as = .ofTable a (fun _ => false) as := rfl

@[simp] theorem Header.width_ofTable (a : String) (f : String → Bool) (as : List String) :
    (Header.ofTable a f as).width = as.length :=
  List.length_mapIdx

theorem Header.getElem?_ofTable (a : String) (f : String → Bool) (as : List String) (i : Nat) :
    (Header.ofTable a f as).columns[i]? = as[i]?.map (Column.ofTable a f i) :=
  List.getElem?_mapIdx

theorem tableColumns_ofNames (a : String) (as : List String) :
    (Header.ofNames a as).tableColumns = List.range as.length := by
  rw [Header.tableColumns, Header.indicesWhere_eq_filter, Header.width_ofNames]
  refine List.filter_eq_self.mpr fun i hi => ?_
  rw [ofNames_eq_ofTable, Header.getElem?_ofTable, List.getElem?_eq_getElem (List.mem_range.mp hi)]
  rfl

theorem range_length {α : Type} (xs : List α) :
    List.range xs.length = xs.zipIdx.map Prod.snd := by
  rw [List.range_eq_range', List.zipIdx_map_snd]

/-- The first place of the elements that pass a test. -/
theorem find?_range {α : Type} {xs : List α} {p : α → Bool} {q : Nat → Bool}
    (same : ∀ i x, xs[i]? = some x → q i = p x) :
    (List.range xs.length).find? q = xs.findIdx? p := by
  rw [range_length, List.find?_map, List.findIdx?_eq_fst_find?_zipIdx]
  congr 1
  have each : ∀ e ∈ xs.zipIdx, (q ∘ Prod.snd) e = p e.1 := fun e he =>
    same e.2 e.1 (List.mem_zipIdx_iff_getElem?.mp he)
  rw [← List.head?_filter, List.filter_congr each, List.head?_filter]

/-- A `NATURAL` join pairs the columns in common. -/
theorem naturalPairs_ofNames (a b : String) (as bs : List String) :
    naturalPairs (.ofNames a as) (.ofNames b bs) = commonPlaces as bs := by
  have nameAt : ∀ (c : String) (cs : List String) (k : Nat) (z : String), cs[k]? = some z →
      ((Header.ofNames c cs).columns[k]?.getD {}).name = z := by
    intro c cs k z hz
    rw [ofNames_eq_ofTable, Header.getElem?_ofTable, hz]
    rfl
  rw [naturalPairs, tableColumns_ofNames, tableColumns_ofNames, commonPlaces, range_length as,
    List.filterMap_map]
  refine List.filterMap_congr fun ⟨x, i⟩ hx => ?_
  have hx : as[i]? = some x := List.mem_zipIdx_iff_getElem?.mp hx
  dsimp only [Function.comp_apply]
  rw [nameAt a as i x hx, find?_range fun j y hy => ?_]
  rw [nameAt b bs j y hy, sameIgnoringCase_comm]

/-- A qualified name means the column of this name in its table. -/
theorem indicesWhere_ofTable (ha : DistinctNames as) (hx : as[i]? = some x)
    (table : sameIgnoringCase a t = true) (name : sameIgnoringCase x n = true) :
    (Header.ofTable a f as).indicesWhere (fun c => c.isMeantBy (some t) n) = [i] := by
  refine Header.find?_eq_some_iff.mp (Header.find?_eq_some_iff_meant.mpr fun j => ?_)
  rw [Header.getElem?_ofTable]
  constructor
  · rintro ⟨c, hc, meant⟩
    obtain ⟨y, hy, rfl⟩ := Option.map_eq_some_iff.mp hc
    have meant : (sameIgnoringCase a t && sameIgnoringCase y n) = true := meant
    rw [Bool.and_eq_true] at meant
    exact ha.place_eq hy hx (sameIgnoringCase_trans meant.2 (sameIgnoringCase_symm name))
  · rintro rfl
    rw [hx]
    refine ⟨_, rfl, ?_⟩
    show (sameIgnoringCase a t && sameIgnoringCase x n) = true
    rw [table, name]
    rfl

/-- No column is meant by the qualified names of another table. -/
theorem indicesWhere_ofTable_other (table : sameIgnoringCase a t = false) :
    (Header.ofTable a f as).indicesWhere (fun c => c.isMeantBy (some t) n) = [] := by
  refine Header.indicesWhere_eq_nil fun c hc => ?_
  obtain ⟨i, hi, rfl⟩ := List.mem_mapIdx.mp hc
  show (sameIgnoringCase a t && _) = false
  rw [table]
  rfl

theorem not_same_of_same (apart : sameIgnoringCase a b = false)
    (table : sameIgnoringCase a t = true) : sameIgnoringCase b t = false := by
  refine Bool.eq_false_iff.mpr fun same => ?_
  rw [sameIgnoringCase_trans table (sameIgnoringCase_symm same)] at apart
  cases apart

/-- The qualified name of a column of the first table. -/
theorem indicesWhere_first (apart : sameIgnoringCase a b = false) (ha : DistinctNames as)
    (hx : as[i]? = some x) (table : sameIgnoringCase a t = true)
    (name : sameIgnoringCase x n = true) :
    ((Header.ofTable a f as).append (.ofTable b g bs)).indicesWhere
      (fun c => c.isMeantBy (some t) n) = [i] := by
  rw [Header.indicesWhere_append, indicesWhere_ofTable ha hx table name,
    indicesWhere_ofTable_other (not_same_of_same apart table)]
  rfl

/-- The qualified name of a column of the second table. -/
theorem indicesWhere_second (apart : sameIgnoringCase a b = false) (hb : DistinctNames bs)
    (hy : bs[j]? = some y) (table : sameIgnoringCase b t = true)
    (name : sameIgnoringCase y n = true) :
    ((Header.ofTable a f as).append (.ofTable b g bs)).indicesWhere
      (fun c => c.isMeantBy (some t) n) = [as.length + j] := by
  rw [sameIgnoringCase_comm] at apart
  rw [Header.indicesWhere_append, indicesWhere_ofTable hb hy table name,
    indicesWhere_ofTable_other (not_same_of_same apart table), Header.width_ofTable]
  rfl

/-- The qualified names in the condition of the join find the paired columns. -/
theorem pairFound_ofNames (apart : sameIgnoringCase a b = false) (ha : DistinctNames as)
    (hb : DistinctNames bs) :
    ∀ pair ∈ commonPlaces as bs, PairFound (.ofNames a as) (.ofNames b bs) pair := by
  rintro ⟨i, j⟩ mem
  obtain ⟨x, y, hx, hy, -⟩ := (mem_commonPlaces hb).mp mem
  unfold PairFound
  rw [ofNames_eq_ofTable, ofNames_eq_ofTable, Header.getElem?_ofTable, Header.getElem?_ofTable, hx,
    hy, Header.width_ofTable]
  exact ⟨Header.find?_eq_some_iff.mpr
      (indicesWhere_first apart ha hx (sameIgnoringCase_refl a) (sameIgnoringCase_refl x)),
    Header.find?_eq_some_iff.mpr
      (indicesWhere_second apart hb hy (sameIgnoringCase_refl b) (sameIgnoringCase_refl y))⟩

end Tables

/-! ## The header of the join -/

/-- The merged columns, then those of both tables, of which the ones in common are hidden. -/
def naturalHeader (a b : String) (as bs : List String) : Header :=
  (Header.mk ((as.filter (occursIn bs)).map Column.merging)).append
    ((Header.ofTable a (occursIn bs) as).append (.ofTable b (occursIn as) bs))

/-- The indices of the common places in the columns of both tables. -/
def commonIndices (as bs : List String) : List (Nat × Nat) :=
  (commonPlaces as bs).map fun (i, j) => (i, j + as.length)

section Merged

variable {a b n : String} {as bs : List String} {x y : String} {i j : Nat}

theorem mem_hidden (hb : DistinctNames bs) {k : Nat} :
    k ∈ (commonIndices as bs).flatMap (fun (l, r) => [l, r]) ↔
      ∃ i j x y, as[i]? = some x ∧ bs[j]? = some y ∧ sameIgnoringCase x y = true ∧
        (k = i ∨ k = j + as.length) := by
  rw [commonIndices, List.flatMap_map, List.mem_flatMap]
  constructor
  · rintro ⟨⟨i, j⟩, mem, hk⟩
    obtain ⟨x, y, hx, hy, same⟩ := (mem_commonPlaces hb).mp mem
    exact ⟨i, j, x, y, hx, hy, same, by simpa using hk⟩
  · rintro ⟨i, j, x, y, hx, hy, same, hk⟩
    exact ⟨(i, j), (mem_commonPlaces hb).mpr ⟨x, y, hx, hy, same⟩, by simpa using hk⟩

/-- A column of the first table is hidden if the second one has its name. -/
theorem first_hidden (hb : DistinctNames bs) (hx : as[i]? = some x) :
    ((commonIndices as bs).flatMap fun (l, r) => [l, r]).contains i = occursIn bs x := by
  rw [Bool.eq_iff_iff, List.contains_iff_mem, mem_hidden hb, occursIn_iff]
  have inside := (List.getElem?_eq_some_iff.mp hx).1
  constructor
  · rintro ⟨i', j, x', y, hx', hy, same, rfl | beyond⟩
    · cases hx.symm.trans hx'
      exact ⟨y, List.mem_of_getElem? hy, same⟩
    · omega
  · rintro ⟨y, hy, same⟩
    obtain ⟨j, hj⟩ := List.mem_iff_getElem?.mp hy
    exact ⟨i, j, x, y, hx, hj, same, .inl rfl⟩

/-- A column of the second table is hidden if the first one has its name. -/
theorem second_hidden (hb : DistinctNames bs) (hy : bs[j]? = some y) :
    ((commonIndices as bs).flatMap fun (l, r) => [l, r]).contains (j + as.length) =
      occursIn as y := by
  rw [Bool.eq_iff_iff, List.contains_iff_mem, mem_hidden hb, occursIn_iff]
  constructor
  · rintro ⟨i, j', x, y', hx, hy', same, before | place⟩
    · have inside := (List.getElem?_eq_some_iff.mp hx).1
      omega
    · obtain rfl : j = j' := by omega
      cases hy.symm.trans hy'
      exact ⟨x, List.mem_of_getElem? hx, sameIgnoringCase_symm same⟩
  · rintro ⟨x, hx, same⟩
    obtain ⟨i, hi⟩ := List.mem_iff_getElem?.mp hx
    exact ⟨i, j, x, y, hi, hy, sameIgnoringCase_symm same, .inr rfl⟩

/-- The columns of a table after some are hidden. -/
theorem hide_columns {hides : String → Bool} {hidden : Nat → Bool}
    (h : ∀ i x, as[i]? = some x → hidden i = hides x) :
    ((Header.ofNames a as).columns.mapIdx fun i c =>
      if hidden i then { c with hidden := true } else c) = (Header.ofTable a hides as).columns := by
  rw [ofNames_eq_ofTable]
  refine List.ext_getElem? fun i => ?_
  rw [List.getElem?_mapIdx, Header.getElem?_ofTable, Header.getElem?_ofTable]
  cases hx : as[i]? with
  | none => rfl
  | some x =>
    rw [Option.map_some, Option.map_some, Option.map_some, h i x hx]
    cases hidden : hides x <;> simp [Column.ofTable, hidden]

/-- Merging gives this header. -/
theorem mergePairs_header (hb : DistinctNames bs) (joined : List Record) (rightFirst : Bool) :
    (View.mergePairs { header := (Header.ofNames a as).append (.ofNames b bs), records := joined }
      (commonIndices as bs) rightFirst).header = naturalHeader a b as bs := by
  have width : (Header.ofNames a as).columns.length = as.length := Header.width_ofNames a as
  refine congrArg Header.mk (congrArg₂ (· ++ ·) ?_ ?_)
  · rw [← map_commonPlaces, List.map_map, commonIndices, List.map_map]
    refine List.map_congr_left fun ⟨i, j⟩ mem => ?_
    obtain ⟨x, y, hx, -⟩ := (mem_commonPlaces hb).mp mem
    have column : ((Header.ofNames a as).append (.ofNames b bs)).columns[i]? =
        some (Column.ofTable a (fun _ => false) i x) := by
      rw [Header.append, List.getElem?_append_left, ofNames_eq_ofTable, Header.getElem?_ofTable, hx]
      · rfl
      · exact width.symm ▸ (List.getElem?_eq_some_iff.mp hx).1
    dsimp only [Function.comp_apply]
    rw [column, List.getD_eq_getElem?_getD, hx]
    rfl
  · dsimp only [Header.append]
    rw [List.mapIdx_append, width, hide_columns fun i x hx => first_hidden hb hx,
      hide_columns fun j y hy => second_hidden hb hy]

/-- The visible columns of a table. -/
theorem visible_ofTable (a : String) (hides : String → Bool) (as : List String) :
    ((Header.ofTable a hides as).columns.filter fun c => !c.hidden).map Column.name =
      as.filter fun x => !hides x := by
  rw [Header.ofTable, List.mapIdx_eq_zipIdx_map, List.filter_map, List.map_map]
  exact map_filter_zipIdx as fun x => !hides x

/-- The visible columns have the names of both tables, once each. -/
theorem visible_naturalHeader (a b : String) (as bs : List String) :
    ((naturalHeader a b as bs).columns.filter fun c => !c.hidden).map Column.name =
      naturalNames as bs := by
  have front : ((as.filter (occursIn bs)).map Column.merging).filter (fun c => !c.hidden) =
      (as.filter (occursIn bs)).map Column.merging := by
    refine List.filter_eq_self.mpr fun c hc => ?_
    obtain ⟨x, -, rfl⟩ := List.mem_map.mp hc
    rfl
  have names : ((as.filter (occursIn bs)).map Column.merging).map Column.name =
      as.filter (occursIn bs) := by
    rw [List.map_map]
    exact List.map_id' _
  dsimp only [naturalHeader, Header.append]
  rw [List.filter_append, List.filter_append, List.map_append, List.map_append, front, names,
    visible_ofTable, visible_ofTable, naturalNames, List.append_assoc]

theorem mem_naturalHeader {c : Column} (hc : c ∈ (naturalHeader a b as bs).columns) :
    c.aliases = [] ∧ c.fromTable = true := by
  obtain front | rest := List.mem_append.mp hc
  · obtain ⟨x, -, rfl⟩ := List.mem_map.mp front
    exact ⟨rfl, rfl⟩
  · obtain rest | rest := List.mem_append.mp rest
    · obtain ⟨i, hi, rfl⟩ := List.mem_mapIdx.mp rest
      exact ⟨rfl, rfl⟩
    · obtain ⟨i, hi, rfl⟩ := List.mem_mapIdx.mp rest
      exact ⟨rfl, rfl⟩

/-- `*` stands for the visible columns. -/
theorem tableColumns_naturalHeader (a b : String) (as bs : List String) :
    (naturalHeader a b as bs).tableColumns =
      (naturalHeader a b as bs).indicesWhere fun c => !c.hidden := by
  rw [Header.tableColumns, Header.indicesWhere_eq_filter, Header.indicesWhere_eq_filter]
  refine List.filter_congr fun i _ => ?_
  cases hc : (naturalHeader a b as bs).columns[i]? with
  | none => rfl
  | some c =>
    show (c.fromTable && !c.hidden) = _
    rw [(mem_naturalHeader (List.mem_of_getElem? hc)).2]
    rfl

/-- The columns for which `*` stands are labeled by the names of both tables. -/
theorem labels_naturalHeader (a b : String) (as bs : List String) :
    ((naturalHeader a b as bs).project (naturalHeader a b as bs).tableColumns).labels =
      naturalNames as bs := by
  rw [tableColumns_naturalHeader, Header.project_indicesWhere, Header.labels,
    ← visible_naturalHeader a b]
  refine List.map_congr_left fun c hc => ?_
  rw [Column.label, (mem_naturalHeader (List.mem_of_mem_filter hc)).1]
  rfl

/-- A name finds the visible column that has it. -/
theorem find?_naturalHeader (ha : DistinctNames as) (hb : DistinctNames bs) {k : Nat} {c : Column}
    (hc : (naturalHeader a b as bs).columns[k]? = some c) (visible : c.hidden = false)
    (name : sameIgnoringCase c.name n = true) :
    (naturalHeader a b as bs).find? none n = .ok (some k) :=
  Header.find?_visible (fun _ hc => (mem_naturalHeader hc).1)
    (visible_naturalHeader a b as bs ▸ distinctNames_naturalNames ha hb) hc visible name

end Merged

/-! ## What a query reads -/

/-- A reference means a column, and this has the given values. -/
def View.Reads (v : View) (table : Option String) (name : String) (values : List Value) : Prop :=
  (∃ i, v.header.find? table name = .ok (some i)) ∧
    ∀ (env : Env) (s : Scope), exec (Operand.evalEach
      ⟨.column table name, fun env => (Expr.column table name).eval env⟩ env v.bindings) s =
        (.ok values, s)

theorem View.reads_of_find? {v : View} (ungrouped : v.grouped = false) {table : Option String}
    {name : String} {i : Nat} (found : v.header.find? table name = .ok (some i)) :
    v.Reads table name (v.records.map fun r => r.value i) := by
  refine ⟨⟨i, found⟩, fun env s => ?_⟩
  have each : ∀ b ∈ v.bindings, exec ((Expr.column table name).eval (env.bind b)) s =
      (.ok (b.record.value i), s) := by
    intro b hb
    obtain ⟨r, -, rfl⟩ := List.mem_map.mp hb
    rw [ungrouped]
    exact exec_column found s
  refine (exec_mapM_of_ok each).trans ?_
  rw [View.bindings, List.map_map]
  rfl

/-- The first of two values that is not NULL; a right join looks at the second table first. -/
def mergedValue (kind : JoinKind) (x y : Value) : Value :=
  if kind == .right then firstValue y x else firstValue x y

/-- A view is the `NATURAL` join of tables with the given columns, which has these records before
columns are merged. -/
structure View.JoinsNaturally (v : View) (kind : JoinKind) (a b : String) (as bs : List String)
    (joined : List Record) : Prop where
  /-- No name is shown twice. -/
  distinct : DistinctNames (naturalNames as bs)
  /-- `*` stands for the columns of these names. -/
  labels : (v.header.project v.header.tableColumns).labels = naturalNames as bs
  found : (naturalNames as bs).mapM (v.header.find none) = .ok v.header.tableColumns
  /-- Behind the merged values the records are those of the join. -/
  records : v.records.map (fun r => r.cells.drop (as.filter (occursIn bs)).length) =
    joined.map Record.cells
  /-- A qualified name still means the column of its table. -/
  first : ∀ i x t n, as[i]? = some x → sameIgnoringCase a t = true → sameIgnoringCase x n = true →
    v.Reads (some t) n (joined.map fun r => r.value i)
  second : ∀ j y t n, bs[j]? = some y → sameIgnoringCase b t = true → sameIgnoringCase y n = true →
    v.Reads (some t) n (joined.map fun r => r.value (as.length + j))
  /-- A name that only one table has means its column there. -/
  firstOnly : ∀ i x n, as[i]? = some x → occursIn bs x = false → sameIgnoringCase x n = true →
    v.Reads none n (joined.map fun r => r.value i)
  secondOnly : ∀ j y n, bs[j]? = some y → occursIn as y = false → sameIgnoringCase y n = true →
    v.Reads none n (joined.map fun r => r.value (as.length + j))
  /-- A name that both tables have means the merged column. -/
  common : ∀ i j x y n, as[i]? = some x → bs[j]? = some y → sameIgnoringCase x y = true →
    sameIgnoringCase x n = true →
    v.Reads none n (joined.map fun r => mergedValue kind (r.value i) (r.value (as.length + j)))

/-- The view in which the columns in common are merged. -/
def naturalView (kind : JoinKind) (a b : String) (as bs : List String) (joined : List Record) :
    View :=
  View.mergePairs { header := (Header.ofNames a as).append (.ofNames b bs), records := joined }
    (commonIndices as bs) (kind == .right)

section Reads

variable {kind : JoinKind} {a b n : String} {as bs : List String} {joined : List Record}
  {x y : String} {i j : Nat}

theorem length_commonIndices (as bs : List String) :
    (commonIndices as bs).length = (as.filter (occursIn bs)).length := by
  rw [← map_commonPlaces, List.length_map, commonIndices, List.length_map]

theorem naturalView_header (hb : DistinctNames bs) :
    (naturalView kind a b as bs joined).header = naturalHeader a b as bs :=
  mergePairs_header hb joined _

/-- A column behind the merged ones has the values that it had. -/
theorem naturalView_values (k : Nat) :
    (naturalView kind a b as bs joined).records.map
        (fun r => r.value ((as.filter (occursIn bs)).length + k)) =
      joined.map fun r => r.value k := by
  rw [naturalView, View.mergePairs, List.map_map]
  refine List.map_congr_left fun r _ => ?_
  have width : ∀ vs : (Nat × Nat) → Value, (Record.ofValues ((commonIndices as bs).map vs)).width =
      (as.filter (occursIn bs)).length := by
    intro vs
    rw [Record.width_ofValues, List.length_map, length_commonIndices]
  dsimp only [Function.comp_apply]
  rw [Record.value_append_right (by rw [width]; omega), width, Nat.add_sub_cancel_left]

/-- A merged column has the merged values. -/
theorem naturalView_merged {k : Nat} (hk : (commonPlaces as bs)[k]? = some (i, j)) :
    (naturalView kind a b as bs joined).records.map (fun r => r.value k) =
      joined.map fun r => mergedValue kind (r.value i) (r.value (as.length + j)) := by
  rw [naturalView, View.mergePairs, List.map_map]
  refine List.map_congr_left fun r _ => ?_
  have pair : (commonIndices as bs)[k]? = some (i, j + as.length) := by
    rw [commonIndices, List.getElem?_map, hk]
    rfl
  have inside := (List.getElem?_eq_some_iff.mp pair).1
  dsimp only [Function.comp_apply]
  rw [Record.value_append_left (by rw [Record.width_ofValues, List.length_map]; exact inside),
    Record.value_ofValues, List.getD_eq_getElem?_getD, List.getElem?_map, pair, Nat.add_comm j]
  rfl

/-- A qualified name never means a merged column. -/
theorem indicesWhere_naturalHeader (t : String) :
    (naturalHeader a b as bs).indicesWhere (fun c => c.isMeantBy (some t) n) =
      (((Header.ofTable a (occursIn bs) as).append
        (.ofTable b (occursIn as) bs)).indicesWhere fun c => c.isMeantBy (some t) n).map
          ((as.filter (occursIn bs)).length + ·) := by
  rw [naturalHeader, Header.indicesWhere_append, Header.indicesWhere_eq_nil, List.nil_append,
    Header.width, List.length_map]
  intro c hc
  obtain ⟨x, -, rfl⟩ := List.mem_map.mp hc
  rfl

/-- The columns behind the merged ones. -/
theorem naturalHeader_column (k : Nat) :
    (naturalHeader a b as bs).columns[(as.filter (occursIn bs)).length + k]? =
      ((Header.ofTable a (occursIn bs) as).append (.ofTable b (occursIn as) bs)).columns[k]? := by
  rw [naturalHeader, Header.append, List.getElem?_append_right (by simp), List.length_map,
    Nat.add_sub_cancel_left]

theorem naturalHeader_first (hx : as[i]? = some x) :
    (naturalHeader a b as bs).columns[(as.filter (occursIn bs)).length + i]? =
      some (Column.ofTable a (occursIn bs) i x) := by
  have inside : i < (Header.ofTable a (occursIn bs) as).width := by
    rw [Header.width_ofTable]
    exact (List.getElem?_eq_some_iff.mp hx).1
  rw [naturalHeader_column, Header.append, List.getElem?_append_left inside, Header.getElem?_ofTable,
    hx]
  rfl

theorem naturalHeader_second (hy : bs[j]? = some y) :
    (naturalHeader a b as bs).columns[(as.filter (occursIn bs)).length + (as.length + j)]? =
      some (Column.ofTable b (occursIn as) j y) := by
  have width : (Header.ofTable a (occursIn bs) as).columns.length = as.length :=
    Header.width_ofTable ..
  rw [naturalHeader_column, Header.append, List.getElem?_append_right (by omega), width,
    Nat.add_sub_cancel_left, Header.getElem?_ofTable, hy]
  rfl

theorem naturalHeader_common {k : Nat} (hk : (commonPlaces as bs)[k]? = some (i, j))
    (hx : as[i]? = some x) :
    (naturalHeader a b as bs).columns[k]? = some (Column.merging x) := by
  have inside : k < ((as.filter (occursIn bs)).map Column.merging).length := by
    rw [← map_commonPlaces, List.length_map, List.length_map]
    exact (List.getElem?_eq_some_iff.mp hk).1
  rw [naturalHeader, Header.append, List.getElem?_append_left inside, List.getElem?_map,
    ← map_commonPlaces, List.getElem?_map, hk, Option.map_some, List.getD_eq_getElem?_getD, hx]
  rfl

/-- The view in which the columns in common are merged joins the tables. -/
theorem naturalView_joins (kind : JoinKind) (apart : sameIgnoringCase a b = false)
    (ha : DistinctNames as) (hb : DistinctNames bs) (joined : List Record) :
    (naturalView kind a b as bs joined).JoinsNaturally kind a b as bs joined := by
  have header : (naturalView kind a b as bs joined).header = naturalHeader a b as bs :=
    naturalView_header hb
  have reads : ∀ {table : Option String} {n : String} {k : Nat},
      (naturalHeader a b as bs).find? table n = .ok (some k) →
      (naturalView kind a b as bs joined).Reads table n
        ((naturalView kind a b as bs joined).records.map fun r => r.value k) :=
    fun found => View.reads_of_find? rfl (header ▸ found)
  refine ⟨distinctNames_naturalNames ha hb, ?_, ?_, ?_, ?_, ?_, ?_, ?_, ?_⟩
  · rw [header, labels_naturalHeader]
  · have plain : ∀ c ∈ (naturalHeader a b as bs).columns, c.aliases = [] :=
      fun c hc => (mem_naturalHeader hc).1
    have all := Header.mapM_find_visible plain
      (visible_naturalHeader a b as bs ▸ distinctNames_naturalNames ha hb)
    rwa [header, tableColumns_naturalHeader, ← visible_naturalHeader a b]
  · rw [naturalView, View.mergePairs, List.map_map]
    refine List.map_congr_left fun r _ => List.drop_left' ?_
    rw [← length_commonIndices]
    simp [Record.ofValues]
  · intro i x t n hx table name
    have found : ((Header.ofTable a (occursIn bs) as).append
        (.ofTable b (occursIn as) bs)).indicesWhere (fun c => c.isMeantBy (some t) n) = [i] :=
      indicesWhere_first apart ha hx table name
    refine naturalView_values i ▸ reads (Header.find?_eq_some_iff.mpr ?_)
    rw [indicesWhere_naturalHeader, found]
    rfl
  · intro j y t n hy table name
    have found : ((Header.ofTable a (occursIn bs) as).append
        (.ofTable b (occursIn as) bs)).indicesWhere (fun c => c.isMeantBy (some t) n) =
          [as.length + j] := indicesWhere_second apart hb hy table name
    refine naturalView_values (as.length + j) ▸ reads (Header.find?_eq_some_iff.mpr ?_)
    rw [indicesWhere_naturalHeader, found]
    rfl
  · intro i x n hx only name
    exact naturalView_values i ▸ reads (find?_naturalHeader ha hb (naturalHeader_first hx) only name)
  · intro j y n hy only name
    exact naturalView_values (as.length + j) ▸
      reads (find?_naturalHeader ha hb (naturalHeader_second hy) only name)
  · intro i j x y n hx hy same name
    obtain ⟨k, hk⟩ := List.mem_iff_getElem?.mp ((mem_commonPlaces hb).mpr ⟨x, y, hx, hy, same⟩)
    exact naturalView_merged hk ▸
      reads (find?_naturalHeader ha hb (naturalHeader_common hk hx) rfl name)

end Reads

/-! ## The join -/

/-- The records of the inner or outer join on the equality of all columns in common. -/
def naturalRecords (clock : Calendar.Clock) (kind : JoinKind) (as bs : List String)
    (ls rs : List Record) : List Record :=
  relationalJoin (pairsTruth clock as.length (commonPlaces as bs)) as.length bs.length ls rs kind

section Join

variable {x y : Source} {env : Env} {s t u : Scope} {left right : View} {a b : String}
  {as bs : List String}

theorem naturalPairs_tables (first : left.header = .ofNames a as)
    (second : right.header = .ofNames b bs) :
    JoinOn.natural.pairs? left.header right.header = .ok (some (commonPlaces as bs)) := by
  rw [JoinOn.pairs?, first, second, naturalPairs_ofNames]

/-- A `NATURAL` join of tables matches their columns in common and merges them. -/
theorem exec_joinViews_natural (first : left.header = .ofNames a as)
    (second : right.header = .ofNames b bs) (apart : sameIgnoringCase a b = false)
    (ha : DistinctNames as) (hb : DistinctNames bs) (kind : JoinKind) :
    exec (joinViews kind .natural left right env) s =
      (.ok (naturalView kind a b as bs
        (naturalRecords env.clock kind as bs left.records right.records)), s) := by
  have found : ∀ pair ∈ commonPlaces as bs, PairFound left.header right.header pair := by
    rw [first, second]
    exact pairFound_ofNames apart ha hb
  rw [joinViews_compares (naturalPairs_tables first second) found, first, second,
    Header.width_ofNames, Header.width_ofNames]
  rfl

/-- A `NATURAL` join of tables with different names and distinct columns always succeeds. Each name
of either table is shown once and means one column; qualified names mean what they meant before; and
the records are those of the join on the equality of all columns in common, with merged values in
front. -/
theorem natural_join_tables (hx : exec (x.load env) s = (.ok left, t))
    (hy : exec (y.load env) t = (.ok right, u)) (first : left.header = .ofNames a as)
    (second : right.header = .ofNames b bs) (apart : sameIgnoringCase a b = false)
    (ha : DistinctNames as) (hb : DistinctNames bs) (kind : JoinKind) :
    ∃ v w, exec ((Source.join kind x y .natural).load env) s = (.ok v, u) ∧
      v.JoinsNaturally kind a b as bs
        (naturalRecords env.clock kind as bs left.records right.records) ∧
      exec ((selectAll (.join kind x y .natural)).run env) s = (.ok w, u) ∧
      w.fix.labels = naturalNames as bs ∧
      w.fix.rows = v.records.map fun r => v.header.tableColumns.map r.value := by
  have loaded : exec ((Source.join kind x y .natural).load env) s = (.ok (naturalView kind a b as bs
      (naturalRecords env.clock kind as bs left.records right.records)), u) := by
    rw [Source.load, exec_bind_ok hx, exec_bind_ok hy]
    exact exec_joinViews_natural first second apart ha hb kind
  have joins := naturalView_joins kind apart ha hb
    (naturalRecords env.clock kind as bs left.records right.records)
  exact ⟨_, _, loaded, joins, exec_selectAll loaded, joins.labels, View.rows_fix rfl⟩

/-- In `a (k, x) NATURAL FULL JOIN b (Y, K)` the merged column has the value of `b` where `a` has no
record. -/
theorem natural_join_tables_full :
    let table (name : String) (columns : List String) (rows : List (List Expr)) : Source :=
      .values rows (some name) columns
    let one : Expr := .literal (.integer 1)
    let two : Expr := .literal (.integer 2)
    let a := table "a" ["k", "x"] [[one, two]]
    let b := table "b" ["Y", "K"] [[one, two], [two, one]]
    ∃ v w, exec ((Source.join .full a b .natural).load {}) {} = (.ok v, {}) ∧
      v.Reads none "K" [.integer 1, .integer 2] ∧ v.Reads (some "A") "k" [.integer 1, .null] ∧
      exec ((selectAll (.join .full a b .natural)).run {}) {} = (.ok w, {}) ∧
      w.fix.labels = ["k", "x", "Y"] := by
  intro table one two a b
  let left : View := .ofRows (.ofNames "a" ["k", "x"]) [[.integer 1, .integer 2]]
  let right : View := .ofRows (.ofNames "b" ["Y", "K"]) [[.integer 1, .integer 2],
    [.integer 2, .integer 1]]
  have first : exec (a.load {}) {} = (.ok left, {}) := rfl
  have second : exec (b.load {}) {} = (.ok right, {}) := rfl
  have distinct : DistinctNames ["k", "x"] ∧ DistinctNames ["Y", "K"] := by
    constructor <;> exact List.pairwise_pair.mpr (by decide +kernel)
  have apart : sameIgnoringCase "a" "b" = false := by decide +kernel
  obtain ⟨v, w, loaded, joins, run, labels, -⟩ := natural_join_tables first second rfl rfl apart
    distinct.1 distinct.2 .full
  have records : naturalRecords {} .full ["k", "x"] ["Y", "K"] left.records right.records =
      [.ofValues [.integer 1, .integer 2, .integer 2, .integer 1],
        .ofValues [.null, .null, .integer 1, .integer 2]] := rfl
  have merged := joins.common 0 1 "k" "K" "K" rfl rfl (by decide +kernel) (by decide +kernel)
  have qualified := joins.first 0 "k" "A" "k" rfl (by decide +kernel) (by decide +kernel)
  have names : naturalNames ["k", "x"] ["Y", "K"] = ["k", "x", "Y"] := by decide +kernel
  rw [show ({} : Env).clock = {} from rfl, records] at merged qualified
  exact ⟨v, w, loaded, merged, qualified, run, labels.trans names⟩

end Join

end TableQuery
