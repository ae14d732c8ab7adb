import TableQuery.Proofs.Evaluation.FieldIndependence
import TableQuery.Proofs.Evaluation.RowCounts

/-!
# What a select list shows of groups

A field that names a column of groups must name a key, and what a field computes is no column of a
table. A wildcard stands for columns of tables whether they are keys or not. So a select list over
groups shows only keys and computed columns exactly if its wildcards stand for keys.
-/

namespace TableQuery

open Eval

variable {env : Env} {s t : Scope} {v w : View} {h : Header} {indices : List Nat}

/-! ## Columns of groups -/

/-- The column has one value for a whole group: it is computed, or a key. -/
def Column.OfGroups (c : Column) : Prop :=
  c.fromTable = true → c.groupKey = true

instance (c : Column) : Decidable c.OfGroups :=
  inferInstanceAs (Decidable (_ → _))

/-- What decides whether a column is one of groups. -/
def Column.marks (c : Column) : Bool × Bool :=
  (c.fromTable, c.groupKey)

theorem Column.marks_addAlias (c : Column) (name : String) : (c.addAlias name).marks = c.marks := by
  unfold addAlias
  split <;> rfl

theorem Column.OfGroups.of_marks {c d : Column} (hc : c.OfGroups) (same : d.marks = c.marks) :
    d.OfGroups := by
  obtain ⟨table, key⟩ := Prod.mk.inj same
  exact fun fromTable => key.trans (hc (table.symm.trans fromTable))

namespace Header

/-- The column at an index is there, and it is one of groups. -/
def OfGroups (h : Header) (i : Nat) : Prop :=
  ∃ c, h.columns[i]? = some c ∧ c.OfGroups

theorem ofGroups_of_findComputed? {text : String} {i : Nat}
    (found : h.findComputed? text = some i) : h.OfGroups i := by
  obtain ⟨inside, computed, -⟩ := List.findIdx?_eq_some_iff_getElem.mp found
  refine ⟨_, List.getElem?_eq_getElem inside, fun fromTable => ?_⟩
  rw [fromTable] at computed
  cases computed

theorem ofGroups_push (h : Header) (text : String) :
    (h.push (.computed text)).OfGroups h.width := by
  refine ⟨.computed text, ?_, fun fromTable => by cases fromTable⟩
  exact List.getElem?_concat_length

end Header

/-- The marks of a column stay while the view grows. -/
theorem View.Change.marks_eq (change : v.Change w) {i : Nat} {c : Column}
    (found : v.header.columns[i]? = some c) :
    ∃ d, w.header.columns[i]? = some d ∧ d.marks = c.marks := by
  cases change with
  | reorder => exact ⟨c, found, rfl⟩
  | push =>
    have inside := (List.getElem?_eq_some_iff.mp found).1
    exact ⟨c, (List.getElem?_append_left inside).trans found, rfl⟩
  | addAlias j name =>
    refine ⟨if j = i then c.addAlias name else c, ?_, ?_⟩
    · show (v.header.columns.modify j _)[i]? = _
      rw [List.getElem?_modify, found]
      rfl
    · split
      · exact c.marks_addAlias name
      · rfl

theorem View.Grows.ofGroups (grown : v.Grows w) {i : Nat} (ofGroups : v.header.OfGroups i) :
    w.header.OfGroups i := by
  induction grown with
  | refl => exact ofGroups
  | tail _ change ih =>
    obtain ⟨c, found, keeps⟩ := ih
    obtain ⟨d, there, same⟩ := change.marks_eq found
    exact ⟨d, there, keeps.of_marks same⟩

/-! ## Fields -/

/-- The columns for which a wildcard stands. -/
def Expr.wildcard? (h : Header) : Expr → Option (List Nat)
  | .allColumns => some h.tableColumns
  | .tableColumns table => (h.columnsOf table).toOption
  | _ => none

/-- What a field may select of groups: a wildcard the columns for which it stands, and any other
field a column of groups. -/
def Expr.SelectsOfGroups (h : Header) (indices : List Nat) (e : Expr) : Prop :=
  match e.wildcard? h with
  | some columns => indices = columns
  | none => ∀ i ∈ indices, h.OfGroups i

theorem Expr.wildcard?_of_grows (grown : v.Grows w) (e : Expr) :
    e.wildcard? w.header = e.wildcard? v.header := by
  cases e with
  | allColumns => exact congrArg some grown.tableColumns_eq
  | tableColumns table => exact congrArg Except.toOption (grown.columnsOf_eq table)
  | _ => rfl

theorem Expr.SelectsOfGroups.later {e : Expr} (selects : e.SelectsOfGroups v.header indices)
    (grown : v.Grows w) : e.SelectsOfGroups w.header indices := by
  unfold SelectsOfGroups at selects ⊢
  rw [Expr.wildcard?_of_grows grown]
  cases found : e.wildcard? v.header with
  | some columns =>
    rw [found] at selects
    exact selects
  | none =>
    rw [found] at selects
    exact fun i hi => grown.ofGroups (selects i hi)

theorem Expr.wildcard?_of_computedIn {e : Expr} (computed : e.ComputedIn h) (g : Header) :
    e.wildcard? g = none := by
  obtain other | ⟨table, name, rfl, -⟩ := computed
  · cases e <;> first | rfl | cases other
  · rfl

theorem Expr.selectsOfGroups_wildcard {e : Expr} (wildcard : e.wildcard? h = some indices) :
    e.SelectsOfGroups h indices := by
  unfold SelectsOfGroups
  rw [wildcard]

theorem Expr.selectsOfGroups_single {e : Expr} {i : Nat} (plain : e.wildcard? h = none)
    (ofGroups : h.OfGroups i) : e.SelectsOfGroups h [i] := by
  unfold SelectsOfGroups
  rw [plain]
  exact fun j hj => List.mem_singleton.mp hj ▸ ofGroups

/-- A computed column is none of a table. -/
theorem Stage.computedColumn_ofGroups {o : Operand} {i : Nat}
    (run : Stage.exec (Stage.computedColumn o env) v s = ((.ok i, w), t)) :
    w.header.OfGroups i := by
  rw [Stage.exec_computedColumn] at run
  cases found : v.header.findComputed? o.text with
  | some j =>
    rw [found] at run
    cases run
    exact Header.ofGroups_of_findComputed? found
  | none =>
    rw [found] at run
    dsimp only at run
    rcases values : Eval.exec (o.evalEach env v.bindings) s with ⟨e | vs, r⟩ <;> rw [values] at run
    · cases run
    · cases run
      exact v.header.ofGroups_push o.text

/-- A column that a field names in groups is a key, unless it is computed. -/
theorem Stage.columnIndex?_ofGroups {table : Option String} {name : String} {i : Nat}
    (grouped : v.grouped = true) (groups : v.records ≠ [])
    (run : Stage.exec (Stage.columnIndex? table name) v s = ((.ok (some i), w), t)) :
    w = v ∧ v.header.OfGroups i := by
  obtain ⟨rfl, found⟩ := Stage.columnIndex?_eq_ok run
  have inside : i < w.header.columns.length := Header.lt_of_find? found
  refine ⟨rfl, w.header.columns[i], List.getElem?_eq_getElem inside, ?_⟩
  rw [Stage.exec_columnIndex?, found] at run
  dsimp only at run
  rw [grouped, Bool.true_and, List.getElem?_eq_getElem inside, Option.getD_some,
    List.isEmpty_eq_false_iff.mpr groups] at run
  intro fromTable
  rw [fromTable] at run
  cases key : w.header.columns[i].groupKey with
  | true => rfl
  | false =>
    rw [key] at run
    cases run

/-- What a field selects of groups. -/
theorem SelectItem.resolve_ofGroups (item : SelectItem) (grouped : v.grouped = true)
    (groups : v.records ≠ [])
    (run : Stage.exec (item.resolve env) v s = ((.ok indices, w), t)) :
    item.expr.SelectsOfGroups w.header indices := by
  have aliased (x : View) (i : Nat) (aliasName : Option String) :
      x.Grows (x.withAlias i aliasName) := by
    cases aliasName with
    | none => exact .refl x
    | some name => exact (View.Change.addAlias i name).grows
  by_cases computed : item.expr.ComputedIn v.header
  · rw [item.exec_resolve computed] at run
    obtain ⟨i, x, r, column, run⟩ := Stage.exec_bind_eq_ok run
    rw [Stage.exec_bind_ok (Stage.exec_addAlias ..)] at run
    cases run
    exact Expr.selectsOfGroups_single (Expr.wildcard?_of_computedIn computed _)
      ((aliased x i _).ofGroups (Stage.computedColumn_ofGroups column))
  · obtain ⟨⟨e, eval⟩, aliasName, windows⟩ := item
    cases e with
    | allColumns =>
      cases run
      exact Expr.selectsOfGroups_wildcard rfl
    | tableColumns table =>
      obtain ⟨found, rfl⟩ := Prod.mk.inj (Prod.mk.inj run).1
      exact Expr.selectsOfGroups_wildcard (congrArg Except.toOption found)
    | column table name =>
      obtain ⟨i?, x, r, index, rest⟩ := Stage.exec_bind_eq_ok run
      cases i? with
      | none => exact absurd (.inr ⟨table, name, rfl, (Stage.columnIndex?_eq_ok index).2⟩) computed
      | some i =>
        obtain ⟨rfl, ofGroups⟩ := Stage.columnIndex?_ofGroups grouped groups index
        dsimp only at rest
        rw [pure_bind, Stage.exec_bind_ok (Stage.exec_addAlias ..)] at rest
        cases rest
        exact Expr.selectsOfGroups_single rfl ((aliased _ i _).ofGroups ofGroups)
    | _ => exact absurd (.inl rfl) computed

theorem SelectItem.resolve_grows (item : SelectItem) (env : Env) :
    Stage.Grows (item.resolve env) :=
  (item.resolve_picks env).grows

/-! ## The select list -/

/-- A view that grows keeps its groups. -/
theorem View.Grows.records_ne_nil (grown : v.Grows w) (groups : v.records ≠ []) :
    w.records ≠ [] :=
  List.ne_nil_of_length_pos (grown.length_records ▸ List.length_pos_iff.mpr groups)

/-- What the fields of a list select of groups, one after the other. -/
theorem mapM_resolve_ofGroups {items : List SelectItem} {picked : List (List Nat)}
    (grouped : v.grouped = true) (groups : v.records ≠ [])
    (run : Stage.exec (items.mapM fun item => item.resolve env) v s = ((.ok picked, w), t)) :
    List.Forall₂ (fun item is => item.expr.SelectsOfGroups w.header is) items picked := by
  induction items generalizing v s picked with
  | nil =>
    cases run
    exact .nil
  | cons item items ih =>
    rw [List.mapM_cons] at run
    obtain ⟨indices, x, r, first, run⟩ := Stage.exec_bind_eq_ok run
    obtain ⟨others, y, q, rest, run⟩ := Stage.exec_bind_eq_ok run
    cases run
    have grown : v.Grows x := by
      have grows := item.resolve_grows env v s
      rwa [first] at grows
    have later : x.Grows w := by
      have grows := Stage.Grows.mapM (fun item (_ : item ∈ items) => item.resolve_grows env) x r
      rwa [rest] at grows
    exact .cons ((item.resolve_ofGroups grouped groups first).later later)
      (ih (grown.grouped.trans grouped) (grown.records_ne_nil groups) rest)

/-- The columns selected are all of groups if those of the wildcards are. -/
theorem selected_ofGroups_iff {items : List SelectItem} {picked : List (List Nat)}
    (selects : List.Forall₂ (fun item is => item.expr.SelectsOfGroups h is) items picked) :
    (∀ i ∈ picked.flatten, h.OfGroups i) ↔
      ∀ item ∈ items, ∀ is, item.expr.wildcard? h = some is → ∀ i ∈ is, h.OfGroups i := by
  induction selects with
  | nil => simp
  | @cons item indices items picked first rest ih =>
    rw [List.flatten_cons, List.forall_mem_append, List.forall_mem_cons, ih]
    refine and_congr_left fun _ => ?_
    unfold Expr.SelectsOfGroups at first
    cases wildcard : item.expr.wildcard? h with
    | some columns =>
      rw [wildcard] at first
      subst first
      simp
    | none =>
      rw [wildcard] at first
      exact iff_of_true first (fun _ found => by cases found)

/-- Whether at the first or at the second try, the columns come from one pass over the fields. -/
theorem exists_resolveItems_of_resolveOrGroup {items : List SelectItem}
    (run : Stage.exec (resolveOrGroup items env) v s = ((.ok indices, w), t)) :
    ∃ u r, Stage.exec (resolveItems items env) u r = ((.ok indices, w), t) := by
  rw [resolveOrGroup, Stage.exec_bind, Stage.exec_view] at run
  dsimp only [Stage.execThen] at run
  rw [Stage.exec_tryCatch] at run
  rcases tried : Stage.exec (resolveItems items env) v s with ⟨⟨e | is, u⟩, r⟩ <;> rw [tried] at run
  · dsimp only at run
    rw [Stage.exec_bind, Stage.exec_view] at run
    dsimp only [Stage.execThen] at run
    split at run
    · exact ⟨_, _, run⟩
    · cases run
  · cases run
    exact ⟨v, s, tried⟩

/-- A field other than a wildcard selects only columns of groups. A wildcard selects what it stands
for, so the result shows other columns exactly if a wildcard stands for one. -/
theorem select_shows_groups_iff {items : List SelectItem} {u : Unit}
    (run : Stage.exec (select items env) v s = ((.ok u, w), t)) (grouped : w.grouped = true)
    (groups : w.records ≠ []) :
    ∃ picked, w.selected = some picked.flatten ∧
      List.Forall₂ (fun item is => item.expr.SelectsOfGroups w.header is) items picked ∧
      ((∀ i ∈ picked.flatten, w.header.OfGroups i) ↔
        ∀ item ∈ items, ∀ is, item.expr.wildcard? w.header = some is →
          ∀ i ∈ is, w.header.OfGroups i) := by
  rw [select, Stage.exec_bind, Stage.exec_modifyView] at run
  obtain ⟨indices, x, r, resolved, run⟩ := Stage.exec_bind_eq_ok run
  cases run
  obtain ⟨y, q, resolved⟩ := exists_resolveItems_of_resolveOrGroup resolved
  obtain ⟨_, z, p, windows, resolved⟩ := Stage.exec_bind_eq_ok resolved
  obtain ⟨picked, x, r, fields, resolved⟩ := Stage.exec_bind_eq_ok resolved
  cases resolved
  -- the fields only add columns, so they started from the groups of the result
  have grown : z.Grows x := by
    have grows := Stage.Grows.mapM (fun item (_ : item ∈ items) => item.resolve_grows env) z p
    rwa [fields] at grows
  have selects := mapM_resolve_ofGroups (grown.grouped.symm.trans grouped)
    (fun none => groups (List.length_eq_zero_iff.mp (grown.length_records.trans
      (List.length_eq_zero_iff.mpr none)))) fields
  exact ⟨picked, rfl, selects, selected_ofGroups_iff selects⟩

/-- `SELECT *` over the groups of `a` shows `b`, which is no key. -/
theorem select_shows_groups_iff_wildcard :
    let rows : View := .ofRows (.ofNames "t" ["a", "b"]) [[.integer 1, .integer 2],
      [.integer 1, .integer 3]]
    let key : Expr := .column none "a"
    ∃ v w, exec (rows.groupBy [⟨key, fun env => key.eval env⟩] {}) {} = (.ok v, {}) ∧
      Stage.exec (select (selectItems [.mk .allColumns none]) {}) v {} = ((.ok (), w), {}) ∧
      w.fix.labels = ["a", "b"] ∧ w.selected = some [0, 1] ∧
      ¬∀ i ∈ [0, 1], w.header.OfGroups i := by
  intro rows key
  let v : View :=
    { header := ⟨[{ table := "t", name := "a", number := 1, fromTable := true, groupKey := true },
        { table := "t", name := "b", number := 2, fromTable := true }]⟩
      records := [⟨[⟨[.integer 1, .integer 1]⟩, ⟨[.integer 2, .integer 3]⟩]⟩]
      grouped := true }
  have run : Stage.exec (select (selectItems [.mk .allColumns none]) {}) v {} =
      ((.ok (), { v with selected := some [0, 1] }), {}) := rfl
  refine ⟨v, _, rfl, run, rfl, rfl, fun shown => ?_⟩
  obtain ⟨picked, selected, -, iff⟩ := select_shows_groups_iff run rfl (by decide)
  have all := iff.mp (Option.some.inj selected ▸ shown) _ (List.mem_singleton_self _) [0, 1] rfl
  obtain ⟨c, found, ofGroups⟩ := all 1 (by decide)
  cases found
  exact absurd (ofGroups rfl) (by decide)

end TableQuery
