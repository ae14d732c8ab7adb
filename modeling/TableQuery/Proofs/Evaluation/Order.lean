import TableQuery.Evaluation.Meaning
import TableQuery.Proofs.Evaluation.Growth
import TableQuery.Proofs.Value.SortKey

/-!
# What `ORDER BY` guarantees

Sorting by columns that a view has puts its records into another order and keeps their key tuples.
No record sorts strictly before the one directly in front of it. That no record sorts strictly
before any in front of it takes more, because the test that drives the sort need not be an order: it
holds for all arrangements of the records exactly if "not strictly before" is transitive on them.
-/

namespace TableQuery

open Calendar Stage

variable {v : View} {env : Env} {s : Scope}

/-! ## Sort keys that columns hold -/

/-- The column of the view that holds a sort key, if nothing has to be computed for it. -/
def OrderKey.column? (key : OrderKey) (v : View) : Option Nat :=
  match key.expr with
  | .literal (.integer place) => v.columnAt? place
  | .column table name =>
    match v.header.find? table name with
    | .error _ => none
    | .ok none => v.header.findComputed? key.text
    | .ok (some i) =>
      let c := v.header.columns[i]?.getD {}
      if v.grouped && c.fromTable && !c.groupKey && !v.records.isEmpty then none else some i
  | _ =>
    if key.windows.all fun c => (v.header.findComputed? c.expr.text).isSome then
      v.header.findComputed? key.text
    else
      none

theorem exec_computedColumn_of_some {o : Operand} {i : Nat}
    (h : v.header.findComputed? o.text = some i) :
    Stage.exec (computedColumn o env) v s = ((.ok i, v), s) := by
  rw [exec_computedColumn, h]

/-- Window calls that all have columns are not run. -/
theorem exec_runWindows_of_all {calls : List WindowCall}
    (h : ∀ c ∈ calls, (v.header.findComputed? c.expr.text).isSome) :
    Stage.exec (runWindows calls env) v s = ((.ok (), v), s) := by
  induction calls with
  | nil => rfl
  | cons call calls ih =>
    obtain ⟨i, hi⟩ := Option.isSome_iff_exists.mp (h call (by simp))
    have first : Stage.exec (do
        if ((← Stage.view).header.findComputed? call.expr.text).isNone then call.run env) v s =
        ((.ok (), v), s) := by
      rw [exec_bind, exec_view]
      dsimp only [execThen]
      rw [hi]
      rfl
    have rest := ih fun c hc => h c (by simp [hc])
    show Stage.exec (_ >>= fun _ => runWindows calls env) v s = _
    rw [exec_bind, first]
    exact rest

theorem OrderKey.resolve_of_column? {key : OrderKey} {i : Nat} (h : key.column? v = some i) :
    Stage.exec (key.resolve env) v s = ((.ok i, v), s) := by
  unfold OrderKey.resolve
  split
  · rename_i place hkey
    rw [OrderKey.column?, hkey] at h
    dsimp only at h
    rw [exec_bind, exec_view]
    dsimp only [execThen]
    rw [h]
    rfl
  · rename_i table name hkey
    rw [OrderKey.column?, hkey] at h
    dsimp only at h
    rw [exec_bind, exec_columnIndex?]
    cases hf : v.header.find? table name with
    | error e =>
      rw [hf] at h
      cases h
    | ok i? =>
      rw [hf] at h
      cases i? with
      | none => exact exec_computedColumn_of_some h
      | some j =>
        dsimp only at h ⊢
        split at h <;> cases h
        rename_i hc
        rw [if_neg hc]
        rfl
  · rename_i hplace hcolumn
    unfold OrderKey.column? at h
    split at h
    · rename_i place hkey
      exact absurd hkey (hplace place)
    · rename_i table name hkey
      exact absurd hkey (hcolumn table name)
    · split at h
      · rename_i hall
        rw [exec_bind, exec_runWindows_of_all (List.all_eq_true.mp hall)]
        exact exec_computedColumn_of_some h
      · cases h

theorem resolve_keys {keys : List OrderKey} {indices : List Nat}
    (h : List.Forall₂ (fun key i => key.column? v = some i) keys indices) :
    Stage.exec (keys.mapM fun key => key.resolve env) v s = ((.ok indices, v), s) := by
  induction h with
  | nil => rfl
  | cons hkey _ ih =>
    rw [List.mapM_cons, exec_bind, OrderKey.resolve_of_column? hkey]
    dsimp only [execThen]
    rw [exec_bind, ih]
    rfl

/-- A column that holds a key of a view still does so if the view has fewer records, or the same ones
in another order: records can only be a reason to refuse a column. -/
theorem OrderKey.column?_of_subset {key : OrderKey} {i : Nat} {rs : List Record}
    (subset : rs ⊆ v.records) (h : key.column? v = some i) :
    key.column? { v with records := rs } = some i := by
  have answers {refused : Bool} (unrefused : ¬(refused && !v.records.isEmpty) = true) :
      ¬(refused && !rs.isEmpty) = true := by
    simp only [Bool.and_eq_true, Bool.not_eq_true', List.isEmpty_eq_false_iff] at unrefused ⊢
    rintro ⟨asked, someone⟩
    exact unrefused ⟨asked, fun nobody => someone (List.subset_nil.mp (nobody ▸ subset))⟩
  unfold OrderKey.column? at h ⊢
  split at h
  · exact h
  · dsimp only
    split at h
    · cases h
    · exact h
    · dsimp only at h
      split at h
      · cases h
      · rename_i unrefused
        rw [if_neg (answers unrefused)]
        exact h
  · exact h

/-! ## Key tuples -/

/-- The key tuple of a record, given the columns that hold the keys. -/
def keyTuple (clock : Clock) (indices : List Nat) (r : Record) : List SortKey :=
  SortKey.ofValues clock (indices.map r.value)

/-- Whether a key tuple sorts strictly before another under the clauses of an `ORDER BY`. -/
def sortsBefore (keys : List OrderKey) : List SortKey → List SortKey → Bool :=
  SortKey.tupleLess (keyOrders (keys.map OrderKey.toSortOperand))

/-- The tuples of sorted things are the sorted tuples. -/
theorem sortByKeys_fst {α : Type} (orders : List KeyOrder) (items : List (List SortKey × α)) :
    (sortByKeys orders items).map Prod.fst =
      stableSort (SortKey.tupleLess orders) (items.map Prod.fst) := by
  have items_fst : List.Forall₂ (fun p k => p.1 = k) items (items.map Prod.fst) :=
    List.forall₂_map_right_iff.mpr (List.forall₂_same.mpr fun _ _ => rfl)
  have sorted_fst : List.Forall₂ (fun p k => p.1 = k) (sortByKeys orders items)
      (stableSort (SortKey.tupleLess orders) (items.map Prod.fst)) :=
    stableSort_forall₂ (fun a b c d hac hbd => by rw [hac, hbd]) items_fst
  exact List.forall₂_eq_eq_eq ▸ List.forall₂_map_left_iff.mpr sorted_fst

/-! ## Sorted views -/

theorem exists_subset_map_eq {α β : Type} {f : α → β} {xs : List α} {ys : List β}
    (h : ∀ y ∈ ys, y ∈ xs.map f) : ∃ zs ⊆ xs, zs.map f = ys := by
  induction ys with
  | nil => exact ⟨[], List.nil_subset _, rfl⟩
  | cons y ys ih =>
    obtain ⟨zs, hzs, rfl⟩ := ih fun y hy => h y (by simp [hy])
    obtain ⟨z, hz, rfl⟩ := List.mem_map.mp (h y (by simp))
    exact ⟨z :: zs, List.cons_subset.mpr ⟨hz, hzs⟩, rfl⟩

section

variable (v : View) (clock : Clock) (orders : List KeyOrder) (indices : List Nat)

theorem View.sortBy_records_perm : (v.sortBy clock orders indices).records.Perm v.records := by
  have perm := (stableSort_perm (fun a b => SortKey.tupleLess orders a.1 b.1)
    (v.records.map fun r => (keyTuple clock indices r, r))).map Prod.snd
  rwa [List.map_map, show Prod.snd ∘ (fun r => (keyTuple clock indices r, r)) = id from rfl,
    List.map_id] at perm

/-- The stored sort keys are those of the records, in their order. -/
theorem View.sortBy_sortKeys : (v.sortBy clock orders indices).sortKeys =
    some ((v.sortBy clock orders indices).records.map (keyTuple clock indices)) := by
  have keyed : ∀ p ∈ sortByKeys orders (v.records.map fun r => (keyTuple clock indices r, r)),
      p.1 = keyTuple clock indices p.2 := by
    intro p hp
    obtain ⟨r, -, rfl⟩ := List.mem_map.mp ((stableSort_perm _ _).mem_iff.mp hp)
    rfl
  show some (List.map Prod.fst _) = some (List.map _ (List.map Prod.snd _))
  rw [List.map_map]
  exact congrArg some (List.map_congr_left keyed)

/-- The key tuples of the sorted records are the sorted key tuples. -/
theorem View.sortBy_tuples :
    (v.sortBy clock orders indices).records.map (keyTuple clock indices) =
      stableSort (SortKey.tupleLess orders) (v.records.map (keyTuple clock indices)) := by
  have sorted : (v.sortBy clock orders indices).sortKeys = some (stableSort
      (SortKey.tupleLess orders) (v.records.map (keyTuple clock indices))) := by
    refine congrArg some ((sortByKeys_fst orders _).trans ?_)
    rw [List.map_map]
    rfl
  rw [View.sortBy_sortKeys] at sorted
  exact Option.some.inj sorted

/-- However records of a view are arranged, sorting them puts no record in front of one that sorts
strictly before it, exactly if "not strictly before" is transitive on the tuples of the view. -/
theorem View.sortBy_pairwise_iff :
    (∀ rs ⊆ v.records, ((({ v with records := rs } : View).sortBy clock orders indices).records.map
        (keyTuple clock indices)).Pairwise (InOrder (SortKey.tupleLess orders))) ↔
      TransitiveOn (SortKey.tupleLess orders) (· ∈ v.records.map (keyTuple clock indices)) := by
  rw [← stableSort_pairwise_iff (SortKey.tupleLess_asymmetric orders)]
  constructor
  · intro sorted tuples htuples
    obtain ⟨rs, hrs, rfl⟩ := exists_subset_map_eq htuples
    have pairwise := sorted rs hrs
    rwa [View.sortBy_tuples] at pairwise
  · intro sorted rs hrs
    rw [View.sortBy_tuples]
    exact sorted _ fun t ht => List.map_subset _ hrs ht

end

/-- `ORDER BY` computes nothing if columns hold all of its keys. -/
theorem exec_orderBy_of_columns {keys : List OrderKey} {indices : List Nat}
    (h : List.Forall₂ (fun key i => key.column? v = some i) keys indices) :
    Stage.exec (orderBy keys env) v s =
      ((.ok (), v.sortBy env.clock (keyOrders (keys.map OrderKey.toSortOperand)) indices), s) := by
  rw [orderBy, exec_bind, resolve_keys h]
  rfl

/-- Transitivity is what it takes: exactly if "not strictly before" is transitive on the tuples of a
view, `ORDER BY` puts no record in front of one that sorts strictly before it, whichever records of
the view there are and in whatever order they come. -/
theorem orderBy_pairwise_iff {keys : List OrderKey} {indices : List Nat}
    (h : List.Forall₂ (fun key i => key.column? v = some i) keys indices) :
    (∀ rs ⊆ v.records, ∃ w, Stage.exec (orderBy keys env) { v with records := rs } s =
        ((.ok (), w), s) ∧
      (w.records.map (keyTuple env.clock indices)).Pairwise (InOrder (sortsBefore keys))) ↔
      TransitiveOn (sortsBefore keys) (· ∈ v.records.map (keyTuple env.clock indices)) := by
  have columns {rs : List Record} (subset : rs ⊆ v.records) :
      List.Forall₂ (fun key i => key.column? { v with records := rs } = some i) keys indices :=
    h.imp fun _ _ column => OrderKey.column?_of_subset subset column
  refine Iff.trans ?_ (v.sortBy_pairwise_iff env.clock _ indices)
  constructor
  · intro sorted rs subset
    obtain ⟨w, run, pairwise⟩ := sorted rs subset
    rw [exec_orderBy_of_columns (columns subset)] at run
    cases run
    exact pairwise
  · intro pairwise rs subset
    exact ⟨_, exec_orderBy_of_columns (columns subset), pairwise rs subset⟩

end TableQuery
