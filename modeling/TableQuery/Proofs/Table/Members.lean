import Mathlib.Data.List.Forall2
import TableQuery.Proofs.Table.Growth

/-!
# Members of groups

A group holds its rows column by column, so its members are these rows again. Values that are put
beside a group belong to no row: its first member has them, the others have NULLs in their place.
-/

namespace TableQuery

namespace Record

/-- A row of the given width with one value in each cell. -/
structure Plain (width : Nat) (r : Record) : Prop where
  width : r.width = width
  single : ∀ c ∈ r.cells, c.values.length = 1

variable {width : Nat} {r q : Record}

theorem ofValues_plain (vs : List Value) : (ofValues vs).Plain vs.length where
  width := width_ofValues vs
  single c hc := by
    obtain ⟨v, -, rfl⟩ := List.mem_map.mp hc
    rfl

theorem Plain.append {more : Nat} (hr : r.Plain width) (hq : q.Plain more) :
    (r.append q).Plain (width + more) where
  width := by rw [width_append, hr.width, hq.width]
  single c hc := (List.mem_append.mp hc).elim (hr.single c) (hq.single c)

theorem value_of_lt {i : Nat} (hi : i < r.cells.length) : r.value i = r.cells[i].value := by
  rw [value, List.getElem?_eq_getElem hi]
  rfl

/-- A cell with one value is that value. -/
theorem ofValue_value {c : Cell} (h : c.values.length = 1) : Cell.ofValue c.value = c := by
  obtain ⟨v, hv⟩ := List.length_eq_one_iff.mp h
  cases c
  cases hv
  rfl

/-- A plain row is made of its values. -/
theorem Plain.ofValues_value (h : r.Plain width) :
    ofValues ((List.range width).map r.value) = r := by
  obtain ⟨cells⟩ := r
  refine congrArg Record.mk (List.ext_getElem ?_ fun i hi hj => ?_)
  · rw [List.length_map, List.length_map, List.length_range]
    exact h.width.symm
  · rw [List.getElem_map, List.getElem_map, List.getElem_range, value_of_lt hj]
    exact ofValue_value (h.single _ (List.getElem_mem _))

theorem ofValues_append (vs ws : List Value) :
    ofValues (vs ++ ws) = (ofValues vs).append (ofValues ws) :=
  congrArg Record.mk List.map_append

theorem value_ofValues (vs : List Value) (i : Nat) : (ofValues vs).value i = vs.getD i .null := by
  simp only [value, ofValues, List.getElem?_map, List.getD_eq_getElem?_getD, Option.map_map]
  cases vs[i]? <;> rfl

/-- The values of a record stay in front of those that are appended. -/
theorem value_append_left {i : Nat} (hi : i < r.width) : (r.append q).value i = r.value i := by
  rw [value, append, List.getElem?_append_left hi]
  rfl

/-- A record is not asked for the columns of another one in front of it. -/
theorem value_append_right {i : Nat} (hi : r.width ≤ i) :
    (r.append q).value i = q.value (i - r.width) := by
  rw [value, append, List.getElem?_append_right hi]
  rfl

/-- The value that a record was given last. -/
theorem value_push (r : Record) (a : Value) : (r.push (.ofValue a)).value r.width = a := by
  have last := value_append_right (q := .ofValues [a]) (Nat.le_refl r.width)
  rw [Nat.sub_self] at last
  exact last

/-- The record `q` has the cells of a record of the given width, and maybe more after them. -/
structure Extends (width : Nat) (r q : Record) : Prop where
  width : r.width = width
  cells : r.cells <+: q.cells

/-- The values of a record stay where they are. -/
theorem Extends.value_eq {i : Nat} (h : r.Extends width q) (hi : i < width) :
    q.value i = r.value i := by
  obtain ⟨rest, hrest⟩ := h.cells
  have hlt : i < r.cells.length := Nat.lt_of_lt_of_eq hi h.width.symm
  rw [value, ← hrest, List.getElem?_append_left hlt]
  rfl

theorem extends_append (h : r.width = width) (q : Record) : r.Extends width (r.append q) :=
  ⟨h, List.prefix_append _ _⟩

/-- The record `r` is `q` with more values at its end. -/
def Grown (q r : Record) : Prop :=
  ∃ extra, r = q.append (.ofValues extra)

theorem Grown.refl (r : Record) : r.Grown r :=
  ⟨[], congrArg Record.mk (List.append_nil _).symm⟩

theorem Grown.push (h : q.Grown r) (a : Value) : q.Grown (r.push (.ofValue a)) := by
  obtain ⟨extra, rfl⟩ := h
  refine ⟨extra ++ [a], ?_⟩
  rw [ofValues_append]
  exact congrArg Record.mk (List.append_assoc ..)

/-! ## Values beside a group -/

/-- Rows with the values of their group at their ends: the first row has them, the others have
NULLs. -/
def beside (extra : List Value) (rows : List Record) : List Record :=
  rows.mapIdx fun j row =>
    row.append (.ofValues (if j = 0 then extra else List.replicate extra.length .null))

theorem groupSize_group_append (hwidth : 0 < width) (rows : List Record) (q : Record) :
    ((group width rows).append q).groupSize = rows.length := by
  obtain ⟨n, rfl⟩ := Nat.exists_eq_succ_of_ne_zero (Nat.ne_of_gt hwidth)
  simp [groupSize, append, group, List.range_succ_eq_map]

/-- The members of a group are its rows, beside the values that were put after the group. -/
theorem members_group_append (hwidth : 0 < width) {rows : List Record}
    (plain : ∀ row ∈ rows, row.Plain width) (extra : List Value) :
    ((group width rows).append (.ofValues extra)).members = beside extra rows := by
  have size := groupSize_group_append hwidth rows (.ofValues extra)
  refine List.ext_getElem (by simp [members, beside, size]) fun j hj hk => ?_
  have hlt : j < rows.length := by simpa [beside] using hk
  have own : (group width rows).cells.map (fun c => c.values.getD j .null)
      = (List.range width).map rows[j].value := by
    simp [group, hlt]
  have added : (ofValues extra).cells.map (fun c => c.values.getD j .null)
      = if j = 0 then extra else List.replicate extra.length .null := by
    cases j with
    | zero => simp [ofValues, Cell.ofValue, Function.comp_def]
    | succ j => simp [ofValues, Cell.ofValue, Function.comp_def]
  have whole : ((group width rows).append (ofValues extra)).cells.map
      (fun c => c.values.getD j .null) = _ := List.map_append
  simp only [members, beside, List.getElem_map, List.getElem_range, List.getElem_mapIdx]
  rw [whole, own, added, ofValues_append, (plain _ (List.getElem_mem hlt)).ofValues_value]

/-- The members of a group are its rows. -/
theorem members_group (hwidth : 0 < width) {rows : List Record}
    (plain : ∀ row ∈ rows, row.Plain width) : (group width rows).members = rows := by
  have nothing (r : Record) : r.append (ofValues []) = r := congrArg Record.mk (List.append_nil _)
  have h := members_group_append hwidth plain []
  rw [nothing] at h
  rw [h]
  exact List.ext_getElem (by simp [beside]) fun j _ _ => by simp [beside, nothing]

/-- What stands beside the rows comes after their own cells. -/
theorem beside_extends {rows : List Record} (hrows : ∀ row ∈ rows, row.width = width)
    (extra : List Value) : List.Forall₂ (Extends width) rows (beside extra rows) := by
  refine List.forall₂_iff_get.mpr ⟨by simp [beside], fun j hj hk => ?_⟩
  simp only [beside, List.get_eq_getElem, List.getElem_mapIdx]
  exact extends_append (hrows _ (List.getElem_mem hj)) _

/-- A column that stands beside the rows has its value in the first of them only. -/
theorem map_value_beside {extra : List Value} {rows : List Record}
    (hrows : ∀ row ∈ rows, row.width = width) {i : Nat} (hi : width ≤ i) :
    (beside extra rows).map (fun r => r.value i)
      = rows.mapIdx fun j _ => if j = 0 then extra.getD (i - width) .null else .null := by
  refine List.ext_getElem (by simp [beside]) fun j hj hk => ?_
  have hlt : j < rows.length := by simpa [beside] using hj
  have hwidth : rows[j].width = width := hrows _ (List.getElem_mem hlt)
  simp only [beside, List.getElem_map, List.getElem_mapIdx]
  rw [value_append_right (hwidth ▸ hi), hwidth, value_ofValues]
  split
  · rfl
  · rw [List.getD_eq_getElem?_getD, List.getElem?_replicate]
    split <;> rfl

end Record

/-! ## Grouped views -/

namespace View

/-- The records of the view are groups of the given rows. -/
structure Groups (v : View) (groups : List (List Record)) : Prop where
  grouped : v.grouped = true
  records : v.records = groups.map (Record.group v.header.width)
  plain : ∀ rows ∈ groups, ∀ row ∈ rows, row.Plain v.header.width

/-- The records of the view are rows with one value in each cell. -/
structure Rows (v : View) : Prop where
  ungrouped : v.grouped = false
  plain : ∀ r ∈ v.records, r.Plain v.header.width

variable {v : View}

/-- A view of rows as a single group. -/
theorem Rows.groupAll (h : v.Rows) : v.groupAll.Groups [v.records] where
  grouped := rfl
  records := rfl
  plain _ hr := List.mem_singleton.mp hr ▸ h.plain

theorem Groups.rectangular {groups : List (List Record)} (h : v.Groups groups) :
    v.Rectangular := by
  intro r hr
  rw [h.records] at hr
  obtain ⟨rows, -, rfl⟩ := List.mem_map.mp hr
  exact Record.width_group _ _

end View

end TableQuery
