import TableQuery.Evaluation.Meaning
import TableQuery.Proofs.Evaluation.Growth
import TableQuery.Proofs.Table.Members

/-!
# Runs of a select list

A select list that needs no implicit group resolves its fields once, from the first to the last. A
field that is no column and that no column answers for is computed for every record; its column then
stands behind those of the view.
-/

namespace TableQuery

open Eval

variable {env : Env} {items : List SelectItem} {v w : View} {s t : Scope}

/-! ## The whole list -/

/-- Fields that resolve at the first try are selected. -/
theorem exec_select_of_resolve (kept : v.groupFor items = v) {indices : List Nat}
    (h : Stage.exec (resolveItems items env) v s = ((.ok indices, w), t)) :
    Stage.exec (select items env) v s = ((.ok (), { w with selected := some indices }), t) := by
  rw [select, Stage.exec_bind, Stage.exec_modifyView]
  dsimp only [Stage.execThen]
  rw [kept, Stage.exec_bind, resolveOrGroup, Stage.exec_bind, Stage.exec_view]
  dsimp only [Stage.execThen]
  rw [Stage.exec_tryCatch, h]
  rfl

/-- An error that does not ask for groups is the error of the select list. -/
theorem exec_select_of_error (kept : v.groupFor items = v) {e : QueryError}
    (other : e.asksForGroups = false)
    (h : Stage.exec (resolveItems items env) v s = ((.error e, w), t)) :
    Stage.exec (select items env) v s = ((.error e, w), t) := by
  rw [select, Stage.exec_bind, Stage.exec_modifyView]
  dsimp only [Stage.execThen]
  rw [kept, Stage.exec_bind, resolveOrGroup, Stage.exec_bind, Stage.exec_view]
  dsimp only [Stage.execThen]
  rw [Stage.exec_tryCatch, h]
  dsimp only
  rw [Stage.exec_bind, Stage.exec_view]
  dsimp only [Stage.execThen]
  rw [other, Bool.false_and, if_neg Bool.false_ne_true]
  rfl

/-- A select list over groups, or whose result has no groups, resolved its fields at the first try.
-/
theorem resolve_of_exec_select (kept : v.groupFor items = v)
    (once : v.grouped = true ∨ w.grouped = false) {u : Unit}
    (h : Stage.exec (select items env) v s = ((.ok u, w), t)) :
    ∃ indices x, Stage.exec (resolveItems items env) v s = ((.ok indices, x), t) ∧
      w = { x with selected := some indices } := by
  rw [select, Stage.exec_bind, Stage.exec_modifyView] at h
  dsimp only [Stage.execThen] at h
  rw [kept] at h
  obtain ⟨indices, x, r, hx, h⟩ := Stage.exec_bind_eq_ok h
  rw [Stage.exec_modifyView] at h
  cases h
  rw [resolveOrGroup, Stage.exec_bind, Stage.exec_view] at hx
  dsimp only [Stage.execThen] at hx
  rw [Stage.exec_tryCatch] at hx
  rcases hr : Stage.exec (resolveItems items env) v s with ⟨⟨e | is, u⟩, r⟩ <;> rw [hr] at hx
  · -- a second try starts from a single group, so it leaves one
    dsimp only at hx
    rw [Stage.exec_bind, Stage.exec_view] at hx
    dsimp only [Stage.execThen] at hx
    split at hx
    · rename_i again
      have grown := (resolveItems_picks items env).grows v s
      rw [hr] at grown
      rw [Stage.exec_bind, Stage.exec_modifyView] at hx
      dsimp only [Stage.execThen] at hx
      have regrown := (resolveItems_picks items env).grows
        (u.takeColumns v.header.width).groupAll r
      rw [hx] at regrown
      rw [Bool.and_eq_true, grown.grouped, Bool.not_eq_true'] at again
      have regrouped : x.grouped = true := regrown.grouped
      obtain grouped | ungrouped := once
      · rw [again.2] at grouped
        cases grouped
      · rw [show x.grouped = false from ungrouped] at regrouped
        cases regrouped
    · cases hx
  · cases hx
    exact ⟨_, _, rfl, rfl⟩

/-- Without window calls the fields are resolved one after the other. -/
theorem exec_resolveItems (windowless : items.flatMap SelectItem.windows = []) (v : View)
    (s : Scope) :
    Stage.exec (resolveItems items env) v s =
      Stage.exec (List.flatten <$> items.mapM fun item => item.resolve env) v s := by
  rw [resolveItems, windowless, map_eq_pure_bind]
  rfl

/-! ## Fields -/

/-- Gives the column at an index an alias, if there is one. -/
def Header.withAlias (h : Header) (i : Nat) : Option String → Header
  | none => h
  | some name => h.modify i fun c => c.addAlias name

/-- The view in which a column has an alias. -/
def View.withAlias (v : View) (i : Nat) (aliasName : Option String) : View :=
  { v with header := v.header.withAlias i aliasName }

@[simp] theorem Stage.exec_addAlias (i : Nat) (aliasName : Option String) (v : View) (s : Scope) :
    Stage.exec (Stage.addAlias i aliasName) v s = ((.ok (), v.withAlias i aliasName), s) := by
  cases aliasName <;> rfl

/-- Whether a field names columns instead of computing one. -/
def Expr.namesColumns : Expr → Bool
  | .column _ _ | .allColumns | .tableColumns _ => true
  | _ => false

/-- A field is computed unless it names columns that the header has. A name that only a record
further out has is computed, too. -/
def Expr.ComputedIn (h : Header) (e : Expr) : Prop :=
  e.namesColumns = false ∨ ∃ table name, e = .column table name ∧ h.find? table name = .ok none

variable {item : SelectItem}

theorem SelectItem.exec_resolve (computed : item.expr.ComputedIn v.header) (s : Scope) :
    Stage.exec (item.resolve env) v s = Stage.exec (do
      let i ← Stage.computedColumn item.toOperand env
      Stage.addAlias i item.aliasName
      return [i]) v s := by
  obtain ⟨⟨e, eval⟩, aliasName, windows⟩ := item
  obtain other | ⟨table, name, rfl, missing⟩ := computed
  · cases e <;> first | rfl | cases other
  · have nothing : Stage.exec (Stage.columnIndex? table name) v s = ((.ok none, v), s) := by
      rw [Stage.exec_columnIndex?, missing]
    exact Stage.exec_bind_ok nothing _

theorem SelectItem.exec_resolve_found (computed : item.expr.ComputedIn v.header) {i : Nat}
    (found : v.header.findComputed? item.text = some i) :
    Stage.exec (item.resolve env) v s = ((.ok [i], v.withAlias i item.aliasName), s) := by
  have column : Stage.exec (Stage.computedColumn item.toOperand env) v s = ((.ok i, v), s) := by
    rw [Stage.exec_computedColumn, found]
  rw [item.exec_resolve computed, Stage.exec_bind_ok column,
    Stage.exec_bind_ok (Stage.exec_addAlias ..)]
  rfl

/-- A field without a column is computed for all records, or fails with one of them. -/
theorem SelectItem.exec_resolve_missing (computed : item.expr.ComputedIn v.header)
    (missing : v.header.findComputed? item.text = none) :
    Stage.exec (item.resolve env) v s =
      match exec (item.evalEach env v.bindings) s with
      | (.ok values, t) => ((.ok [v.header.width], (v.pushColumn (.computed item.text)
          values).withAlias v.header.width item.aliasName), t)
      | (.error e, t) => ((.error e, v), t) := by
  rw [item.exec_resolve computed, Stage.exec_bind, Stage.exec_computedColumn, missing]
  dsimp only
  rcases exec (item.evalEach env v.bindings) s with ⟨e | values, t⟩
  · rfl
  · dsimp only [Stage.execThen]
    rw [Stage.exec_bind_ok (Stage.exec_addAlias ..)]
    rfl

/-- A field that names a column of rows selects it. -/
theorem SelectItem.exec_resolve_column {table : Option String} {name : String} {i : Nat}
    (column : item.expr = .column table name) (ungrouped : v.grouped = false)
    (found : v.header.find? table name = .ok (some i)) :
    Stage.exec (item.resolve env) v s = ((.ok [i], v.withAlias i item.aliasName), s) := by
  obtain ⟨⟨e, eval⟩, aliasName, windows⟩ := item
  cases column
  have index : Stage.exec (Stage.columnIndex? table name) v s = ((.ok (some i), v), s) := by
    rw [Stage.exec_columnIndex?, found, ungrouped]
    rfl
  refine (Stage.exec_bind_ok index _).trans ?_
  dsimp only
  rw [pure_bind, Stage.exec_bind_ok (Stage.exec_addAlias ..)]
  rfl

/-! ## Values of fields -/

/-- Only the selected columns are left in the end, and one value of each cell. -/
theorem View.rows_fix {indices : List Nat} (h : v.selected = some indices) :
    v.fix.rows = v.records.map fun r => indices.map r.value := by
  rw [View.fix, h]
  show (v.records.map fun r => (r.project indices).collapse).map Record.values = _
  rw [List.map_map]
  refine List.map_congr_left fun r _ => ?_
  simp only [Function.comp_apply, Record.values, Record.collapse, Record.project, List.map_map]
  refine List.map_congr_left fun i _ => ?_
  simp only [Function.comp_apply, Record.value]
  cases r.cells[i]? <;> rfl

/-- A pushed column holds the values that it was pushed with. -/
theorem View.values_pushColumn (rectangular : v.Rectangular) (c : Column) {values : List Value}
    (length : values.length = v.records.length) :
    (v.pushColumn c values).records.map (fun r => r.value v.header.width) = values := by
  refine List.ext_getElem (by simp [View.pushColumn, length]) fun i hi hj => ?_
  have inside : i < v.records.length := length ▸ hj
  have width : v.records[i].width = v.header.width := rectangular _ (List.getElem_mem inside)
  have pushed := Record.value_push v.records[i] values[i]
  rw [width] at pushed
  simpa only [View.pushColumn, List.getElem_map, List.getElem_zipWith] using pushed

/-- A pushed column leaves the cells in front of it alone. -/
theorem View.take_pushColumn (rectangular : v.Rectangular) (c : Column) {values : List Value}
    (length : values.length = v.records.length) :
    (v.pushColumn c values).records.map (fun r => r.take v.header.width) = v.records := by
  refine List.ext_getElem (by simp [View.pushColumn, length]) fun i hi hj => ?_
  have width : v.records[i].width = v.header.width := rectangular _ (List.getElem_mem hj)
  simp only [View.pushColumn, List.getElem_map, List.getElem_zipWith]
  exact congrArg Record.mk (List.take_left' width)

/-- If only a pushed column is selected, its values are all that is left. -/
theorem View.rows_fix_pushColumn (rectangular : v.Rectangular) (c : Column)
    (aliasName : Option String) {values : List Value} (length : values.length = v.records.length) :
    View.rows { (v.pushColumn c values).withAlias v.header.width aliasName with
      selected := some [v.header.width] }.fix = values.map fun x => [x] := by
  rw [View.rows_fix rfl]
  refine .trans ?_ (congrArg (List.map fun x => [x]) (View.values_pushColumn rectangular c length))
  rw [List.map_map]
  rfl

theorem windows_selectItems_single {e : Expr} {aliasName : Option String}
    (windowless : e.windowCalls = []) :
    (selectItems [.mk e aliasName]).flatMap SelectItem.windows = [] := by
  rw [selectItems, List.flatMap_cons, windowless]
  rfl

/-- A select list of one field that is computed. -/
theorem select_single_eq_ok {e : Expr} {aliasName : Option String}
    (computed : e.ComputedIn v.header) (windowless : e.windowCalls = [])
    (missing : v.header.findComputed? e.text = none) (rectangular : v.Rectangular)
    (kept : v.groupFor (selectItems [.mk e aliasName]) = v)
    (once : v.grouped = true ∨ w.grouped = false) {u : Unit}
    (h : Stage.exec (select (selectItems [.mk e aliasName]) env) v s = ((.ok u, w), t)) :
    ∃ values,
      exec (Operand.evalEach ⟨e, fun env => e.eval env⟩ env v.bindings) s = (.ok values, t) ∧
      w.fix.rows = values.map fun x => [x] := by
  obtain ⟨indices, x, hx, rfl⟩ := resolve_of_exec_select kept once h
  rw [exec_resolveItems (windows_selectItems_single windowless), map_eq_pure_bind] at hx
  obtain ⟨picked, y, r, hy, hx⟩ := Stage.exec_bind_eq_ok hx
  rw [selectItems, List.mapM_cons] at hy
  obtain ⟨is, z, q, hz, hy⟩ := Stage.exec_bind_eq_ok hy
  cases hx
  cases hy
  rw [SelectItem.exec_resolve_missing computed missing] at hz
  rcases hv : exec (Operand.evalEach ⟨e, fun env => e.eval env⟩ env v.bindings) s
    with ⟨_ | values, q⟩ <;> rw [hv] at hz <;> cases hz
  have length := (length_of_exec_mapM hv).trans (List.length_map ..)
  exact ⟨values, rfl, View.rows_fix_pushColumn rectangular _ aliasName length⟩

/-- A field that can be computed for all records is added and selected. -/
theorem exec_select_single {e : Expr} (aliasName : Option String)
    (computed : e.ComputedIn v.header) (windowless : e.windowCalls = [])
    (missing : v.header.findComputed? e.text = none)
    (kept : v.groupFor (selectItems [.mk e aliasName]) = v) {values : List Value}
    (h : exec (Operand.evalEach ⟨e, fun env => e.eval env⟩ env v.bindings) s = (.ok values, t)) :
    Stage.exec (select (selectItems [.mk e aliasName]) env) v s =
      ((.ok (), { (v.pushColumn (.computed e.text) values).withAlias v.header.width aliasName with
        selected := some [v.header.width] }), t) := by
  refine exec_select_of_resolve kept ?_
  rw [exec_resolveItems (windows_selectItems_single windowless), map_eq_pure_bind, selectItems,
    List.mapM_cons, bind_assoc, Stage.exec_bind, SelectItem.exec_resolve_missing computed missing]
  dsimp only
  rw [h]
  rfl

end TableQuery
