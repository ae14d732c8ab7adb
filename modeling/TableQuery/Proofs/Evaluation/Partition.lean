import TableQuery.Evaluation.Meaning
import TableQuery.Proofs.Evaluation.Grouping
import TableQuery.Proofs.Table.Partition

/-!
# Grouping loses nothing

The groups of a view are a partition of its rows. The record of a group lists in each cell the
values of its members in order, and in the cells that keys have of their own the values of these.
-/

namespace TableQuery

open Eval

variable {v w : View} {env : Env} {s t : Scope}

/-! ## Records of groups -/

theorem Record.group_cell {width j : Nat} (hj : j < width) (rows : List Record) :
    (Record.group width rows).cells[j]?.map Cell.values = some (rows.map fun r => r.value j) := by
  simp [group, hj]

namespace View

variable {keys : List (List Value)} {owns : List Bool} {group : List Nat} {i : Nat}

/-- The record of a group of rows, given the keys of all rows and which of them have cells. -/
structure GroupRecord (v : View) (keys : List (List Value)) (owns : List Bool)
    (group : List Nat) (r : Record) : Prop where
  width : r.width = v.header.width + (owns.filter id).length
  /-- A cell lists the values of its column. -/
  columns : ∀ j < v.header.width, r.cells[j]?.map Cell.values =
    some (group.map fun i => (v.records.getD i default).value j)
  /-- The cell of a key lists its values. -/
  keys : ∀ m < (owns.filter id).length, r.cells[v.header.width + m]?.map Cell.values =
    some (group.map fun i => (flagged owns (keys.getD i [])).getD m .null)
  /-- The group splits into its rows. -/
  members : r.members.map (fun row => row.take v.header.width) =
    group.map fun i => v.records.getD i default

/-- A row with the values of its key that have cells. -/
def keyedRow (v : View) (keys : List (List Value)) (owns : List Bool) (i : Nat) : Record :=
  (v.records.getD i default).append (.ofValues (flagged owns (keys.getD i [])))

theorem plain_getD (hv : v.Rows) (hi : i < v.records.length) :
    (v.records.getD i default).Plain v.header.width := by
  rw [List.getD_eq_getElem _ _ hi]
  exact hv.plain _ (List.getElem_mem hi)

/-- The rows of a group, each with its key. -/
theorem filterMap_zipWith (count : keys.length = v.records.length)
    (bounded : ∀ i ∈ group, i < v.records.length) :
    (group.filterMap fun i => (v.records.zipWith (fun r key => r.append
      (.ofValues (flagged owns key))) keys)[i]?) = group.map (v.keyedRow keys owns) := by
  rw [← List.filterMap_eq_map]
  refine List.filterMap_congr fun i hi => ?_
  have inside := bounded i hi
  have keyed : i < keys.length := count ▸ inside
  rw [List.getElem?_zipWith, List.getElem?_eq_getElem inside, List.getElem?_eq_getElem keyed,
    Function.comp_apply, keyedRow, List.getD_eq_getElem _ _ inside, List.getD_eq_getElem _ _ keyed]

theorem groupRecord (hv : v.Rows) (hwidth : 0 < v.header.width)
    (widths : ∀ key ∈ keys, key.length = owns.length) (count : keys.length = v.records.length)
    (bounded : ∀ i ∈ group, i < v.records.length) :
    v.GroupRecord keys owns group (Record.group (v.header.width + (owns.filter id).length)
      (group.map (v.keyedRow keys owns))) := by
  have own : ∀ i ∈ group, (flagged owns (keys.getD i [])).length = (owns.filter id).length := by
    intro i hi
    have keyed : i < keys.length := count ▸ bounded i hi
    rw [List.getD_eq_getElem _ _ keyed]
    exact length_flagged (widths _ (List.getElem_mem keyed))
  have plain : ∀ i ∈ group, (v.records.getD i default).Plain v.header.width :=
    fun i hi => plain_getD hv (bounded i hi)
  constructor
  · exact Record.width_group ..
  · intro j hj
    rw [Record.group_cell (by omega), List.map_map]
    refine congrArg some (List.map_congr_left fun i hi => ?_)
    exact (Record.extends_append (plain i hi).width _).value_eq hj
  · intro m hm
    rw [Record.group_cell (by omega), List.map_map]
    refine congrArg some (List.map_congr_left fun i hi => ?_)
    have width := (plain i hi).width
    rw [Function.comp_apply, keyedRow, Record.value_append_right (by omega), width,
      Record.value_ofValues, Nat.add_sub_cancel_left]
  · rw [Record.members_group (by omega), List.map_map]
    · refine List.map_congr_left fun i hi => congrArg Record.mk ?_
      exact List.take_left' (plain i hi).width
    · refine List.forall_mem_map.mpr fun i hi => ?_
      rw [← own i hi]
      exact (plain i hi).append (Record.ofValues_plain _)

/-- The rows of all groups are the rows of the view. -/
theorem members_perm {groups : List (List Nat)} {records : List Record}
    (perm : groups.flatten.Perm (List.range v.records.length))
    (all : List.Forall₂ (v.GroupRecord keys owns) groups records) :
    ((records.flatMap Record.members).map fun row => row.take v.header.width).Perm v.records := by
  have rows : (records.flatMap Record.members).map (fun row => row.take v.header.width) =
      groups.flatten.map fun i => v.records.getD i default := by
    clear perm
    induction all with
    | nil => rfl
    | cons first _ ih =>
      rw [List.flatMap_cons, List.map_append, List.flatten_cons, List.map_append, first.members, ih]
  rw [rows]
  refine (perm.map _).trans (List.Perm.of_eq ?_)
  exact List.ext_getElem (by simp) fun i _ hi => by simp [hi]

/-- The keys of a view partition its records. -/
theorem keyPartition_of_exec {items : List Operand}
    (h : exec (v.bindings.mapM fun b => evalAll items (env.bind b)) s = (.ok keys, t)) :
    keys.length = v.records.length ∧ KeyPartition env.clock keys (groupIndices env.clock keys) := by
  refine ⟨by rw [length_of_exec_mapM h, bindings, List.length_map], ?_⟩
  have widths : ∀ key ∈ keys, key.length = items.length := by
    intro key mem
    obtain ⟨_, -, _, _, hkey⟩ := exists_of_mem_exec_mapM h mem
    exact length_of_exec_mapM hkey
  exact groupIndices_partition widths

/-- Grouping is a partition of the rows, and the records of the groups lose nothing. -/
theorem groupBy_partitions (hv : v.Rows) (hwidth : 0 < v.header.width)
    {items : List Operand} (h : exec (v.groupBy items env) s = (.ok w, t)) :
    ∃ keys groups owns,
      exec (v.bindings.mapM fun b => evalAll items (env.bind b)) s = (.ok keys, t) ∧
      keys.length = v.records.length ∧
      KeyPartition env.clock keys groups ∧
      w.grouped = true ∧ v.header.Stays w.header ∧
      w.header.columns.drop v.header.width =
        (flagged owns (items.map Operand.expr)).map Column.keyOf ∧
      List.Forall₂ (v.GroupRecord keys owns) groups w.records ∧
      ((w.records.flatMap Record.members).map fun row => row.take v.header.width).Perm
        v.records := by
  obtain ⟨keys, header, owns, hkeys, hheader, rfl⟩ := groupBy_eq_ok h
  have length := Header.addGroupKeys_length hheader
  have width := Header.addGroupKeys_width hheader
  obtain ⟨stays, behind⟩ := Header.addGroupKeys_columns hheader
  rw [List.length_map] at length
  have count : keys.length = v.records.length := by
    rw [length_of_exec_mapM hkeys, bindings, List.length_map]
  have widths : ∀ key ∈ keys, key.length = owns.length := by
    intro key mem
    obtain ⟨_, -, _, _, hkey⟩ := exists_of_mem_exec_mapM hkeys mem
    exact (length_of_exec_mapM hkey).trans length.symm
  have partition : KeyPartition env.clock keys _ := groupIndices_partition widths
  have bounded : ∀ group ∈ groupIndices env.clock keys, ∀ i ∈ group, i < v.records.length := by
    intro group hgroup i hi
    have mem := partition.perm.subset (List.mem_flatten.mpr ⟨group, hgroup, hi⟩)
    exact count ▸ List.mem_range.mp mem
  have records : List.Forall₂ (v.GroupRecord keys owns) (groupIndices env.clock keys)
      ((groupIndices env.clock keys).map fun group => Record.group header.width
        (group.filterMap fun i => (v.records.zipWith (fun r key => r.append
          (.ofValues (flagged owns key))) keys)[i]?)) := by
    rw [List.forall₂_map_right_iff, List.forall₂_same]
    intro group hgroup
    rw [filterMap_zipWith count (bounded group hgroup), width]
    exact groupRecord hv hwidth widths count (bounded group hgroup)
  exact ⟨keys, groupIndices env.clock keys, owns, hkeys, count, partition, rfl, stays, behind,
    records, members_perm (count ▸ partition.perm) records⟩

/-- `GROUP BY a + 1` over `1`, NULL and `' 1'`: the two groups hold all three rows. -/
theorem groupBy_partitions_computed :
    let v : View := .ofRows (.ofNames "t" ["a"]) [[.integer 1], [.null], [.text " 1"]]
    let key : Expr := .arith .add (.column none "a") (.literal (.integer 1))
    ∃ w, v.Rows ∧ exec (v.groupBy [⟨key, fun env => key.eval env⟩] {}) {} = (.ok w, {}) ∧
      w.records.length = 2 ∧
      ((w.records.flatMap Record.members).map fun row => row.take 1).Perm v.records := by
  intro v key
  have hv : v.Rows := by
    refine ⟨rfl, List.forall_mem_map.mpr fun row hrow => ?_⟩
    have width : row.length = 1 := by
      revert row
      simp
    rw [show v.header.width = row.length from width.symm]
    exact Record.ofValues_plain row
  let w : View :=
    { header := ⟨[{ table := "t", name := "a", number := 1, fromTable := true },
        { name := "a + 1", groupKey := true }]⟩
      records := [⟨[⟨[.integer 1, .text " 1"]⟩, ⟨[.integer 2, .integer 2]⟩]⟩,
        ⟨[⟨[.null]⟩, ⟨[.null]⟩]⟩]
      grouped := true }
  have run : exec (v.groupBy [⟨key, fun env => key.eval env⟩] {}) {} = (.ok w, {}) := by rfl
  obtain ⟨_, _, _, -, -, -, -, -, -, -, perm⟩ := groupBy_partitions hv Nat.one_pos run
  exact ⟨w, hv, run, rfl, perm⟩

end View

end TableQuery
