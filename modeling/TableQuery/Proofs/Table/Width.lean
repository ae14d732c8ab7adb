import TableQuery.Table.Catalog

/-!
# Widths

How many columns a header has and how many cells a record, after each of the operations on them.
-/

namespace TableQuery

/-! ## Records -/

namespace Record

@[simp] theorem width_ofValues (vs : List Value) : (ofValues vs).width = vs.length :=
  List.length_map _

@[simp] theorem width_nulls (width : Nat) : (nulls width).width = width := by
  rw [nulls, width_ofValues, List.length_replicate]

@[simp] theorem width_push (r : Record) (c : Cell) : (r.push c).width = r.width + 1 := by
  simp [push, width]

@[simp] theorem width_append (a b : Record) : (a.append b).width = a.width + b.width :=
  List.length_append

@[simp] theorem width_project (r : Record) (indices : List Nat) :
    (r.project indices).width = indices.length :=
  List.length_map _

@[simp] theorem width_collapse (r : Record) : r.collapse.width = r.width :=
  List.length_map _

@[simp] theorem width_group (width : Nat) (rows : List Record) :
    (group width rows).width = width := by
  simp [group, Record.width]

end Record

/-! ## Headers -/

namespace Header

@[simp] theorem width_push (h : Header) (c : Column) : (h.push c).width = h.width + 1 := by
  simp [push, width]

@[simp] theorem width_append (a b : Header) : (a.append b).width = a.width + b.width :=
  List.length_append

@[simp] theorem width_modify (h : Header) (i : Nat) (f : Column → Column) :
    (h.modify i f).width = h.width :=
  List.length_modify ..

@[simp] theorem width_ofNames (table : String) (names : List String) :
    (ofNames table names).width = names.length := by
  simp [ofNames, width]

@[simp] theorem width_asTable (h : Header) (table : String) (names : List String) :
    (h.asTable table names).width = h.width := by
  rw [asTable, width_ofNames, List.length_mapIdx, labels, List.length_map]
  rfl

/-- A projection has one column for each index that there is. -/
theorem width_project {h : Header} {indices : List Nat} (hi : ∀ i ∈ indices, i < h.width) :
    (h.project indices).width = indices.length := by
  unfold project width
  induction indices with
  | nil => rfl
  | cons i indices ih =>
    have hlt : i < h.columns.length := hi i (by simp)
    rw [List.filterMap_cons, List.getElem?_eq_getElem hlt]
    exact congrArg (· + 1) (ih fun j hj => hi j (by simp [hj]))

theorem mem_indicesWhere {h : Header} {p : Column → Bool} {i : Nat} :
    i ∈ h.indicesWhere p ↔ ∃ c, h.columns[i]? = some c ∧ p c = true := by
  constructor
  · intro hi
    obtain ⟨⟨c, j⟩, hc, rfl⟩ := List.mem_map.mp hi
    obtain ⟨hmem, hp⟩ := List.mem_filter.mp hc
    exact ⟨c, List.mem_zipIdx_iff_getElem?.mp hmem, hp⟩
  · intro ⟨c, hc, hp⟩
    exact List.mem_map.mpr ⟨(c, i),
      List.mem_filter.mpr ⟨List.mem_zipIdx_iff_getElem?.mpr hc, hp⟩, rfl⟩

theorem lt_of_mem_indicesWhere {h : Header} {p : Column → Bool} {i : Nat}
    (hi : i ∈ h.indicesWhere p) : i < h.width := by
  obtain ⟨c, hc, -⟩ := mem_indicesWhere.mp hi
  exact (List.getElem?_eq_some_iff.mp hc).1

/-- A reference means a column that there is. -/
theorem lt_of_find? {h : Header} {table : Option String} {name : String} {i : Nat}
    (hi : h.find? table name = .ok (some i)) : i < h.width := by
  unfold find? at hi
  split at hi
  · cases hi
  · rename_i j hj
    cases hi
    exact lt_of_mem_indicesWhere (p := fun c => c.isMeantBy table name) (by rw [hj]; simp)
  · cases hi

theorem lt_of_find {h : Header} {table : Option String} {name : String} {i : Nat}
    (hi : h.find table name = .ok i) : i < h.width := by
  unfold find at hi
  cases hf : h.find? table name with
  | error e =>
    rw [hf] at hi
    cases hi
  | ok i? =>
    rw [hf] at hi
    cases i? with
    | none => cases hi
    | some j =>
      cases hi
      exact lt_of_find? hf

theorem lt_of_findComputed? {h : Header} {text : String} {i : Nat}
    (hi : h.findComputed? text = some i) : i < h.width :=
  (List.findIdx?_eq_some_iff_getElem.mp hi).1

theorem lt_of_mem_tableColumns {h : Header} {i : Nat} (hi : i ∈ h.tableColumns) : i < h.width :=
  lt_of_mem_indicesWhere hi

theorem lt_of_mem_columnsOf {h : Header} {table : String} {indices : List Nat}
    (hc : h.columnsOf table = .ok indices) : ∀ i ∈ indices, i < h.width := by
  unfold columnsOf at hc
  split at hc
  · cases hc
  · cases hc
    exact fun i hi => lt_of_mem_indicesWhere hi

end Header

end TableQuery
