import Mathlib.Data.List.Forall2
import TableQuery.Proofs.Evaluation.Computed
import TableQuery.Proofs.Evaluation.Fields

/-!
# Fields of a select list beside each other

Fields are resolved one after the other, and each leaves its alias and its computed column in the
header for the next one. A field has the same values beside the others as alone if none of its
lookups is answered by what the fields before it left there. If a name that means a column of the
view is an alias of another column by then, it is ambiguous and the select list fails.
-/

namespace TableQuery

open Eval

variable {env : Env} {s t : Scope} {v w x : View} {h g : Header}

/-! ## Headers -/

namespace Header

/-- The header with a column for the text of an expression, under an alias. -/
def withComputed (h : Header) (text : String) (aliasName : Option String) : Header :=
  match h.findComputed? text with
  | some i => h.withAlias i aliasName
  | none => (h.push (.computed text)).withAlias h.width aliasName

/-- What a field leaves of a header. -/
def withField (h : Header) : Field → Header
  | .mk .allColumns _ | .mk (.tableColumns _) _ => h
  | .mk (.column table name) aliasName =>
    match h.find? table name with
    | .ok (some i) => h.withAlias i aliasName
    | _ => h.withComputed (Expr.column table name).text aliasName
  | .mk e aliasName => h.withComputed e.text aliasName

theorem indicesWhere_push (h : Header) (c : Column) (p : Column → Bool) :
    (h.push c).indicesWhere p = h.indicesWhere p ++ if p c then [h.width] else [] := by
  unfold indicesWhere push width
  dsimp only
  rw [List.zipIdx_append, List.filter_append, List.map_append]
  cases hp : p c <;> simp [hp]

/-- A change that a test does not see does not change what passes it. -/
theorem indicesWhere_modify {p : Column → Bool} {f : Column → Column} (hf : ∀ c, p (f c) = p c)
    (h : Header) (i : Nat) : (h.modify i f).indicesWhere p = h.indicesWhere p := by
  rw [indicesWhere_eq_filter, indicesWhere_eq_filter, width_modify]
  refine List.filter_congr fun j _ => ?_
  rw [modify, List.getElem?_modify]
  cases h.columns[j]? with
  | none => rfl
  | some c =>
    by_cases at_change : i = j
    · simp [at_change, hf]
    · simp [at_change]

end Header

namespace View

/-- The columns that wildcards stand for stay the same. -/
theorem Grows.indicesWhere_eq (grown : v.Grows w) {p : Column → Bool}
    (aliased : ∀ c name, p (c.addAlias name) = p c)
    (computed : ∀ text, p (.computed text) = false) :
    w.header.indicesWhere p = v.header.indicesWhere p := by
  induction grown with
  | refl => rfl
  | tail _ change ih =>
    rw [← ih]
    cases change with
    | reorder => rfl
    | @push text values missing length =>
      refine (Header.indicesWhere_push ..).trans ?_
      rw [computed]
      exact List.append_nil _
    | addAlias i name => exact Header.indicesWhere_modify (fun c => aliased c name) _ i

theorem Grows.tableColumns_eq (grown : v.Grows w) :
    w.header.tableColumns = v.header.tableColumns := by
  refine grown.indicesWhere_eq (fun c name => ?_) fun text => rfl
  unfold Column.addAlias
  split <;> rfl

theorem Grows.columnsOf_eq (grown : v.Grows w) (table : String) :
    w.header.columnsOf table = v.header.columnsOf table := by
  unfold Header.columnsOf
  rw [grown.indicesWhere_eq (fun c name => ?_) fun text => rfl]
  unfold Column.addAlias
  split <;> rfl

/-! ## Views with more columns -/

/-- The view `w` has the columns of `v`, and maybe more behind them. -/
structure Extends (v w : View) : Prop where
  grown : v.Grows w
  records : List.Forall₂ (Record.Extends v.header.width) v.records w.records

end View

theorem Record.Extends.trans {n m : Nat} {r q p : Record} (hq : r.Extends n q)
    (hp : q.Extends m p) : r.Extends n p :=
  ⟨hq.width, hq.cells.trans hp.cells⟩

namespace View

theorem Extends.refl (rectangular : v.Rectangular) : v.Extends v where
  grown := .refl v
  records := List.forall₂_same.mpr fun r hr => ⟨rectangular r hr, List.prefix_refl _⟩

theorem Extends.trans (hw : v.Extends w) (hx : w.Extends x) : v.Extends x where
  grown := hw.grown.trans hx.grown
  records := by
    have first := hw.records
    have second := hx.records
    generalize v.records = rs at first ⊢
    generalize w.records = qs at first second
    generalize x.records = ps at second ⊢
    induction first generalizing ps with
    | nil =>
      cases second
      exact .nil
    | cons hq _ ih =>
      cases second with
      | cons hp rest => exact .cons (hq.trans hp) (ih _ rest)

theorem Extends.push (rectangular : v.Rectangular) {text : String} {values : List Value}
    (missing : v.header.findComputed? text = none) (length : values.length = v.records.length) :
    v.Extends (v.pushColumn (.computed text) values) where
  grown := (Change.push missing length).grows
  records := by
    refine List.forall₂_iff_get.mpr ⟨by simp [pushColumn, length], fun k hk hj => ?_⟩
    simp only [pushColumn, List.get_eq_getElem, List.getElem_zipWith]
    exact ⟨rectangular _ (List.getElem_mem hk), List.prefix_append _ _⟩

theorem Extends.withAlias (rectangular : v.Rectangular) (i : Nat) (aliasName : Option String) :
    v.Extends (v.withAlias i aliasName) := by
  cases aliasName with
  | none => exact .refl rectangular
  | some name => exact ⟨(Change.addAlias i name).grows, (Extends.refl rectangular).records⟩

/-- What only looks at the columns that were there sees no difference. -/
theorem Extends.map_eq (hw : v.Extends w) {β : Type} {f : Record → β}
    (hf : ∀ r q : Record, r.Extends v.header.width q → f q = f r) :
    w.records.map f = v.records.map f := by
  have pointwise := hw.records
  generalize v.records = rs at pointwise ⊢
  generalize w.records = qs at pointwise ⊢
  induction pointwise with
  | nil => rfl
  | cons hq _ ih => rw [List.map_cons, List.map_cons, ih, hf _ _ hq]

theorem Extends.values_eq (hw : v.Extends w) {i : Nat} (hi : i < v.header.width) :
    (w.records.map fun r => r.value i) = v.records.map fun r => r.value i :=
  hw.map_eq fun _ _ hq => hq.value_eq hi

theorem Extends.rows_eq (hw : v.Extends w) {indices : List Nat}
    (inside : ∀ i ∈ indices, i < v.header.width) :
    (w.records.map fun r => indices.map r.value) = v.records.map fun r => indices.map r.value :=
  hw.map_eq fun _ _ hq => List.map_congr_left fun i hi => hq.value_eq (inside i hi)

end View

/-! ## Fields alone -/

/-- The item of a field. -/
def Field.item : Field → SelectItem
  | .mk e aliasName =>
    { expr := e, eval := fun env => e.eval env, aliasName, windows := e.windowCalls }

theorem selectItems_eq_map (fields : List Field) : selectItems fields = fields.map Field.item := by
  induction fields with
  | nil => rfl
  | cons field fields ih =>
    cases field with
    | mk e aliasName =>
      rw [selectItems, List.map_cons, ih]
      rfl

/-- A field that neither aggregates nor calls a window function nor assigns a variable. -/
structure Field.Plain (field : Field) : Prop where
  unaggregated : field.item.expr.hasAggregate = false
  windowless : field.item.windows = []
  unassigned : Unassigned field.item.expr.parts

/-- The field as the only one of a select list gives the rows, without any grouping. -/
def Field.Alone (v : View) (env : Env) (s : Scope) (field : Field) (rows : List (List Value)) :
    Prop :=
  ∃ x t, exec ((select (selectItems [field]) env).runOn v) s = (.ok x, t) ∧ x.grouped = false ∧
    x.fix.rows = rows

variable {field : Field} {fields : List Field} {rows : List (List Value)}

theorem groupFor_of_plain (plain : ∀ field ∈ fields, field.Plain) (v : View) :
    v.groupFor (selectItems fields) = v := by
  have none : aggregates (selectItems fields) = false := by
    rw [aggregates, selectItems_eq_map, List.any_map, List.any_eq_false]
    intro field hfield
    rw [Function.comp_apply, (plain field hfield).unaggregated]
    exact Bool.false_ne_true
  rw [View.groupFor, none, Bool.and_false]
  rfl

theorem windows_of_plain (plain : ∀ field ∈ fields, field.Plain) :
    (selectItems fields).flatMap SelectItem.windows = [] := by
  rw [selectItems_eq_map, List.flatMap_map, List.flatMap_eq_nil_iff]
  exact fun field hfield => (plain field hfield).windowless

theorem Field.Plain.scope (plain : field.Plain) (env : Env) (w : View) (s : Scope) :
    (Stage.exec (field.item.resolve env) w s).2 = s := by
  have agrees : field.item.Agrees (· = s) Eq := by
    obtain ⟨e, aliasName⟩ := field
    have A := unassigned_agreement s
    exact ⟨fun a b h => e.eval_same A plain.unassigned h, e.windowCalls_agree A plain.unassigned⟩
  exact ((SelectItem.resolve_same (unassigned_agreement s) agrees (rfl : env = env)) w s rfl).2

/-- A field alone is resolved on the view. -/
theorem Field.Alone.resolve (alone : field.Alone v env s rows) (plain : field.Plain) :
    ∃ indices y, Stage.exec (field.item.resolve env) v s = ((.ok indices, y), s) ∧
      rows = y.records.map fun r => indices.map r.value := by
  obtain ⟨x, t, run, ungrouped, rfl⟩ := alone
  have plains : ∀ f ∈ [field], f.Plain := fun f hf => List.mem_singleton.mp hf ▸ plain
  obtain ⟨indices, y, resolved, rfl⟩ := resolve_of_exec_select (groupFor_of_plain plains v)
    (.inr ungrouped) (Stage.exec_runOn_eq_ok run)
  rw [exec_resolveItems (windows_of_plain plains), map_eq_pure_bind] at resolved
  obtain ⟨picked, z, r, hz, resolved⟩ := Stage.exec_bind_eq_ok resolved
  rw [selectItems_eq_map, List.map_singleton, List.mapM_cons] at hz
  obtain ⟨is, q, u, hq, hz⟩ := Stage.exec_bind_eq_ok hz
  cases resolved
  cases hz
  have scope := plain.scope env v s
  rw [hq] at scope
  cases scope
  refine ⟨is, _, hq, ?_⟩
  rw [View.rows_fix rfl]
  simp

/-! ## Fields beside each other -/

/-- What the expression of a field is computed to on a view: a column that holds it already, or its
value on each of the rows. -/
def Expr.ComputesTo (v : View) (env : Env) (s : Scope) (e : Expr) (values : List Value) : Prop :=
  (∃ i, v.header.findComputed? e.text = some i ∧ values = v.records.map fun r => r.value i) ∨
    (v.header.findComputed? e.text = none ∧
      exec (Operand.evalEach ⟨e, fun env => e.eval env⟩ env v.bindings) s = (.ok values, s))

theorem Expr.ComputesTo.unique {e : Expr} {values others : List Value}
    (h : e.ComputesTo v env s values) (k : e.ComputesTo v env s others) : values = others := by
  obtain ⟨i, hi, rfl⟩ | ⟨missing, run⟩ := h
  · obtain ⟨j, hj, rfl⟩ | ⟨missing, -⟩ := k
    · cases hi.symm.trans hj
      rfl
    · cases missing.symm.trans hi
  · obtain ⟨j, hj, -⟩ | ⟨-, other⟩ := k
    · cases missing.symm.trans hj
    · cases run.symm.trans other
      rfl

/-- The column of the view `w` that has the text of an expression holds the values. -/
def View.Holds (w : View) (e : Expr) (values : List Value) : Prop :=
  ∃ i, w.header.findComputed? e.text = some i ∧ (w.records.map fun r => r.value i) = values

/-- No lookup of the field is answered by what other fields left in the header `g`, except that the
same expression may have been computed by an earlier field. -/
structure Expr.Undisturbed (h g : Header) (earlier : List Expr) (e : Expr) : Prop where
  column : ∀ table name, e = .column table name → g.find? table name = h.find? table name
  computed : e.ComputedIn h → e ∈ earlier ∧ e.text ≠ "" ∨
    g.findComputed? e.text = h.findComputed? e.text ∧ AllParts (Part.AnsweredAs h g) e.parts

/-- Rows with added columns give an expression the values that the rows alone give it. -/
theorem evalEach_extended {e : Expr} (hw : v.Extends w) (ungrouped : v.grouped = false)
    (answered : AllParts (Part.AnsweredAs v.header w.header) e.parts) (env : Env) :
    Eval.Same (fun _ => True) (Operand.evalEach ⟨e, fun env => e.eval env⟩ env w.bindings)
      (Operand.evalEach ⟨e, fun env => e.eval env⟩ env v.bindings) := by
  refine .mapM_related ?_
  rw [View.bindings, View.bindings, List.forall₂_map_left_iff, List.forall₂_map_right_iff,
    hw.grown.grouped, ungrouped]
  refine hw.records.flip.imp fun q r hrq => ?_
  refine e.eval_same (alike_agreement _) answered ⟨rfl, rfl, rfl, ?_⟩
  exact .cons (.rows (fun _ => id) fun i hi => hrq.value_eq hi)
    (List.forall₂_same.mpr fun b _ => .refl b)

theorem View.Holds.later {e : Expr} {values : List Value} (held : w.Holds e values)
    (hx : w.Extends x) : x.Holds e values := by
  obtain ⟨i, found, same⟩ := held
  refine ⟨i, hx.grown.within.computed _ i found, ?_⟩
  rw [hx.values_eq (Header.lt_of_findComputed? found), same]

theorem Expr.ComputedIn.undisturbed {earlier : List Expr} {e : Expr} (computed : e.ComputedIn h)
    (undisturbed : e.Undisturbed h g earlier) : e.ComputedIn g := by
  obtain other | ⟨table, name, rfl, missing⟩ := computed
  · exact .inl other
  · exact .inr ⟨table, name, rfl, (undisturbed.column table name rfl).trans missing⟩

theorem Header.withField_computed (computed : field.item.expr.ComputedIn h) :
    h.withField field = h.withComputed field.item.text field.item.aliasName := by
  obtain ⟨e, aliasName⟩ := field
  obtain other | ⟨table, name, rfl, missing⟩ := computed
  · cases e <;> first | rfl | cases other
  · rw [withField, missing]
    rfl

/-- A computed field alone gives what its expression is computed to. -/
theorem computesTo_of_resolve (computed : field.item.expr.ComputedIn v.header)
    (rectangular : v.Rectangular) {indices : List Nat} {y : View}
    (h : Stage.exec (field.item.resolve env) v s = ((.ok indices, y), s)) :
    ∃ values, field.item.expr.ComputesTo v env s values ∧
      (y.records.map fun r => indices.map r.value) = values.map fun a => [a] := by
  obtain ⟨e, aliasName⟩ := field
  cases found : v.header.findComputed? e.text with
  | some i =>
    rw [SelectItem.exec_resolve_found computed found] at h
    cases h
    refine ⟨_, .inl ⟨i, found, rfl⟩, ?_⟩
    rw [List.map_map]
    rfl
  | none =>
    rw [SelectItem.exec_resolve_missing computed found] at h
    rcases hv : exec ((Field.mk e aliasName).item.evalEach env v.bindings) s
      with ⟨_ | values, t⟩ <;> rw [hv] at h <;> cases h
    refine ⟨values, .inr ⟨found, hv⟩, ?_⟩
    have length := (length_of_exec_mapM hv).trans (List.length_map ..)
    refine .trans ?_ (congrArg (List.map fun a => [a])
      (View.values_pushColumn rectangular (.computed e.text) length))
    rw [List.map_map]
    rfl

/-- An undisturbed field is computed to the same values beside the others. -/
theorem resolve_of_computesTo (computed : field.item.expr.ComputedIn v.header)
    (rectangular : v.Rectangular) (ungrouped : v.grouped = false) (hw : v.Extends w)
    {earlier : List Expr} (undisturbed : field.item.expr.Undisturbed v.header w.header earlier)
    {values : List Value} (held : field.item.expr ∈ earlier → field.item.expr.text ≠ "" →
      w.Holds field.item.expr values)
    (hvalues : field.item.expr.ComputesTo v env s values) :
    ∃ i z, Stage.exec (field.item.resolve env) w s = ((.ok [i], z), s) ∧ w.Extends z ∧
      z.header = w.header.withField field ∧ i < z.header.width ∧
      (z.records.map fun r => r.value i) = values ∧
      (field.item.expr.text ≠ "" → z.Holds field.item.expr values) := by
  have there := computed.undisturbed undisturbed
  have regular := hw.grown.rectangular rectangular
  have header := Header.withField_computed there
  unfold Header.withComputed at header
  cases found : w.header.findComputed? field.item.text with
  | some i =>
    rw [found] at header
    have column : (w.records.map fun r => r.value i) = values := by
      obtain ⟨before, named⟩ | ⟨answered, -⟩ := undisturbed.computed computed
      · obtain ⟨j, hj, same⟩ := held before named
        cases found.symm.trans hj
        exact same
      · have old := answered.symm.trans found
        obtain ⟨j, hj, rfl⟩ | ⟨missing, -⟩ := hvalues
        · cases hj.symm.trans old
          exact hw.values_eq (Header.lt_of_findComputed? old)
        · cases missing.symm.trans old
    have aliased := View.Extends.withAlias regular i field.item.aliasName
    refine ⟨i, _, SelectItem.exec_resolve_found there found, aliased, header.symm, ?_, column,
      fun _ => View.Holds.later ⟨i, found, column⟩ aliased⟩
    exact Nat.lt_of_lt_of_le (Header.lt_of_findComputed? found) aliased.grown.width_le
  | none =>
    rw [found] at header
    obtain ⟨before, named⟩ | ⟨answered, parts⟩ := undisturbed.computed computed
    · obtain ⟨j, hj, -⟩ := held before named
      cases found.symm.trans hj
    obtain ⟨j, hj, -⟩ | ⟨-, run⟩ := hvalues
    · cases (answered.trans hj).symm.trans found
    have same := ((evalEach_extended hw ungrouped parts env).exec_eq trivial).trans run
    have same : exec (field.item.evalEach env w.bindings) s = (.ok values, s) := by
      obtain ⟨e, aliasName⟩ := field
      exact same
    have length := (length_of_exec_mapM same).trans (List.length_map ..)
    have pushed := View.Extends.push regular found length
    have aliased := View.Extends.withAlias (pushed.grown.rectangular regular) w.header.width
      field.item.aliasName
    have column := View.values_pushColumn regular (.computed field.item.text) length
    have resolved : Stage.exec (field.item.resolve env) w s = _ :=
      SelectItem.exec_resolve_missing there found
    rw [same] at resolved
    refine ⟨_, _, resolved, pushed.trans aliased, header.symm, ?_, column, fun named => ?_⟩
    · refine Nat.lt_of_lt_of_le ?_ aliased.grown.width_le
      exact Nat.lt_of_lt_of_eq (Nat.lt_succ_self _) (Header.width_push ..).symm
    · refine View.Holds.later ⟨w.header.width, ?_, column⟩ aliased
      have nonempty : field.item.text.isEmpty = false := by
        rw [Bool.eq_false_iff]
        exact fun empty => named (String.isEmpty_iff.mp empty)
      refine (Header.findComputed?_push ..).trans ?_
      rw [show field.item.expr.text = field.item.text from rfl, found, nonempty, beq_self_eq_true]
      rfl

/-- What the view has computed for earlier fields is what these are computed to alone. -/
def View.Remembers (v : View) (env : Env) (s : Scope) (w : View) (earlier : List Expr) : Prop :=
  ∀ e ∈ earlier, e.ComputedIn v.header → e.text ≠ "" →
    ∀ values, e.ComputesTo v env s values → w.Holds e values

/-- An undisturbed field selects the same values beside the others as alone. -/
theorem resolve_beside (rectangular : v.Rectangular) (ungrouped : v.grouped = false)
    (hw : v.Extends w) {earlier : List Expr} (remembers : v.Remembers env s w earlier)
    (undisturbed : field.item.expr.Undisturbed v.header w.header earlier) {indices : List Nat}
    {y : View} (h : Stage.exec (field.item.resolve env) v s = ((.ok indices, y), s)) :
    ∃ picked z, Stage.exec (field.item.resolve env) w s = ((.ok picked, z), s) ∧ w.Extends z ∧
      z.header = w.header.withField field ∧ (∀ i ∈ picked, i < z.header.width) ∧
      (z.records.map fun r => picked.map r.value) = (y.records.map fun r => indices.map r.value) ∧
      v.Remembers env s z (field.item.expr :: earlier) := by
  have regular := hw.grown.rectangular rectangular
  -- wildcards and columns of the view are where they were
  have stays {z : View} (hz : w.Extends z) (named : ¬ field.item.expr.ComputedIn v.header) :
      v.Remembers env s z (field.item.expr :: earlier) := by
    intro e he computed text values hvalues
    rcases List.mem_cons.mp he with rfl | he
    · exact absurd computed named
    · exact (remembers e he computed text values hvalues).later hz
  by_cases computed : field.item.expr.ComputedIn v.header
  · obtain ⟨values, hvalues, alone⟩ := computesTo_of_resolve computed rectangular h
    obtain ⟨i, z, run, hz, header, inside, column, holds⟩ := resolve_of_computesTo computed
      rectangular ungrouped hw undisturbed
      (fun before named => remembers _ before computed named values hvalues) hvalues
    refine ⟨[i], z, run, hz, header, fun j hj => List.mem_singleton.mp hj ▸ inside, ?_, ?_⟩
    · rw [alone, ← column, List.map_map]
      rfl
    · intro e he computed text others hothers
      rcases List.mem_cons.mp he with rfl | he
      · exact hvalues.unique hothers ▸ holds text
      · exact (remembers e he computed text others hothers).later hz
  · obtain ⟨e, aliasName⟩ := field
    cases e with
    | allColumns =>
      cases h
      refine ⟨w.header.tableColumns, w, rfl, .refl regular, rfl,
        fun i hi => Header.lt_of_mem_tableColumns hi, ?_, stays (.refl regular) computed⟩
      rw [hw.grown.tableColumns_eq]
      exact hw.rows_eq fun i hi => Header.lt_of_mem_tableColumns hi
    | tableColumns table =>
      have resolve (x : View) : Stage.exec ((Field.mk (.tableColumns table) aliasName).item.resolve
          env) x s = ((x.header.columnsOf table, x), s) := rfl
      rw [resolve] at h
      obtain ⟨found, rfl⟩ := Prod.mk.inj (Prod.mk.inj h).1
      have there := (hw.grown.columnsOf_eq table).trans found
      refine ⟨indices, w, ?_, .refl regular, rfl, Header.lt_of_mem_columnsOf there, ?_,
        stays (.refl regular) computed⟩
      · rw [resolve, there]
      · exact hw.rows_eq (Header.lt_of_mem_columnsOf found)
    | column table name =>
      have same := undisturbed.column table name rfl
      rcases hf : v.header.find? table name with err | _ | i
      · have fails : Stage.exec (Stage.columnIndex? table name) v s = ((.error err, v), s) := by
          rw [Stage.exec_columnIndex?, hf]
        have failed : Stage.exec ((Field.mk (.column table name) aliasName).item.resolve env) v s
            = ((.error err, v), s) := by
          refine (Stage.exec_bind _ _ v s).trans ?_
          rw [fails]
          rfl
        rw [failed] at h
        cases h
      · exact absurd (.inr ⟨table, name, rfl, hf⟩) computed
      · rw [SelectItem.exec_resolve_column rfl ungrouped hf] at h
        cases h
        have found := same.trans hf
        have aliased := View.Extends.withAlias regular i aliasName
        refine ⟨[i], _, SelectItem.exec_resolve_column rfl (hw.grown.grouped.trans ungrouped) found,
          aliased, ?_, ?_, ?_, stays aliased computed⟩
        · rw [Header.withField, found]
          rfl
        · intro j hj
          rw [List.mem_singleton.mp hj]
          exact Nat.lt_of_lt_of_le (Header.lt_of_find? found) aliased.grown.width_le
        · exact hw.rows_eq fun j hj => List.mem_singleton.mp hj ▸ Header.lt_of_find? hf
    | _ => exact absurd (.inl rfl) computed

/-! ## Select lists -/

/-- Rows put side by side, list by list. -/
def sideBySide (count : Nat) (results : List (List (List Value))) : List (List Value) :=
  results.foldr (List.zipWith (· ++ ·)) (List.replicate count [])

/-- No field of a select list is disturbed by those before it. -/
def FieldsUndisturbed (h g : Header) (earlier : List Expr) : List Field → Prop
  | [] => True
  | field :: fields => field.item.expr.Undisturbed h g earlier ∧
    FieldsUndisturbed h (g.withField field) (field.item.expr :: earlier) fields

variable {results : List (List (List Value))}

/-- Undisturbed fields that are resolved one after the other select what each of them selects alone.
-/
theorem mapM_resolve_beside (rectangular : v.Rectangular) (ungrouped : v.grouped = false)
    (plain : ∀ field ∈ fields, field.Plain) (alone : List.Forall₂ (Field.Alone v env s) fields results)
    (hw : v.Extends w) {earlier : List Expr} (remembers : v.Remembers env s w earlier)
    (undisturbed : FieldsUndisturbed v.header w.header earlier fields) :
    ∃ picked z,
      Stage.exec (fields.mapM fun field => field.item.resolve env) w s = ((.ok picked, z), s) ∧
      w.Extends z ∧ z.header = fields.foldl Header.withField w.header ∧
      (z.records.map fun r => picked.flatten.map r.value) =
        sideBySide v.records.length results := by
  induction alone generalizing w earlier with
  | nil =>
    have length : w.records.length = v.records.length := hw.records.length_eq.symm
    refine ⟨[], w, rfl, .refl (hw.grown.rectangular rectangular), rfl, ?_⟩
    rw [sideBySide, List.foldr_nil, ← length, ← List.map_const']
    rfl
  | @cons field rows fields results first rest ih =>
    obtain ⟨indices, y, resolved, rfl⟩ := first.resolve (plain field (by simp))
    obtain ⟨is, z, run, hz, header, inside, same, remembered⟩ :=
      resolve_beside rectangular ungrouped hw remembers undisturbed.1 resolved
    obtain ⟨others, x, runs, hx, headers, sames⟩ := ih (fun f hf => plain f (by simp [hf]))
      (hw.trans hz) remembered (header ▸ undisturbed.2)
    refine ⟨is :: others, x, ?_, hz.trans hx, ?_, ?_⟩
    · rw [List.mapM_cons, Stage.exec_bind_ok run, Stage.exec_bind_ok runs]
      rfl
    · rw [headers, header, List.foldl_cons]
    · rw [sideBySide, List.foldr_cons, ← sideBySide, ← sames, ← same, ← hx.rows_eq inside,
        List.zipWith_map, List.zipWith_self]
      exact List.map_congr_left fun r _ => List.map_append

/-- A name that means a column of the view and no longer does so is ambiguous. -/
theorem ambiguous_of_within {table : Option String} {name : String} {i : Nat}
    (within : h.Within g) (found : h.find? table name = .ok (some i))
    (lost : g.find? table name ≠ .ok (some i)) :
    g.find? table name = .error (.ambiguousField (referenceText table name)) := by
  have more := within.meant table name
  unfold Header.find? at found lost ⊢
  generalize h.indicesWhere (fun c => c.isMeantBy table name) = is at found more
  generalize g.indicesWhere (fun c => c.isMeantBy table name) = js at lost more ⊢
  rcases is with _ | ⟨j, _ | ⟨k, is⟩⟩
  · cases found
  · cases found
    rcases js with _ | ⟨k, _ | ⟨l, js⟩⟩
    · exact absurd (List.sublist_nil.mp more) (by simp)
    · cases more.eq_of_length rfl
      exact absurd rfl lost
    · rfl
  · cases found

/-- The fields of a select list without aggregates, window calls and assignments are independent of
each other as long as none is disturbed by what the fields before it left in the header: if each of
them succeeds alone, all of them succeed together and give what they give alone, side by side. The
first field that names a column of the view and finds its name taken as an alias of another one fails
the whole list. -/
theorem fields_independent_of_undisturbed (plain : ∀ field ∈ fields, field.Plain)
    (rectangular : v.Rectangular) (ungrouped : v.grouped = false)
    (alone : List.Forall₂ (Field.Alone v env s) fields results) :
    (FieldsUndisturbed v.header v.header [] fields →
      ∃ x, exec ((select (selectItems fields) env).runOn v) s = (.ok x, s) ∧
        x.grouped = false ∧ x.fix.rows = sideBySide v.records.length results) ∧
    ∀ (before after : List Field) (table : Option String) (name : String)
      (aliasName : Option String) (i : Nat),
      fields = before ++ .mk (.column table name) aliasName :: after →
      FieldsUndisturbed v.header v.header [] before →
      v.header.find? table name = .ok (some i) →
      (before.foldl Header.withField v.header).find? table name ≠ .ok (some i) →
      exec ((select (selectItems fields) env).runOn v) s
        = (.error (.ambiguousField (referenceText table name)), s) := by
  have kept := groupFor_of_plain plain v
  have resolves (v : View) : Stage.exec (resolveItems (selectItems fields) env) v s =
      Stage.exec (List.flatten <$> fields.mapM fun field => field.item.resolve env) v s := by
    rw [exec_resolveItems (windows_of_plain plain), selectItems_eq_map, List.mapM_map]
    rfl
  have nothing : v.Remembers env s v [] := by
    intro e he
    cases he
  refine ⟨fun undisturbed => ?_, ?_⟩
  · obtain ⟨picked, z, run, hz, -, same⟩ := mapM_resolve_beside rectangular ungrouped plain alone
      (.refl rectangular) nothing undisturbed
    have resolved : Stage.exec (resolveItems (selectItems fields) env) v s
        = ((.ok picked.flatten, z), s) := by
      rw [resolves, map_eq_pure_bind, Stage.exec_bind_ok run]
      rfl
    refine ⟨{ z with selected := some picked.flatten }, ?_, hz.grown.grouped.trans ungrouped, ?_⟩
    · rw [Stage.exec_runOn, exec_select_of_resolve kept resolved]
    · rw [View.rows_fix rfl]
      exact same
  · rintro before after table name aliasName i rfl undisturbed found lost
    have first : List.Forall₂ (Field.Alone v env s) before (results.take before.length) := by
      have taken := List.forall₂_take before.length alone
      rwa [List.take_left] at taken
    obtain ⟨picked, z, run, hz, header, -⟩ := mapM_resolve_beside rectangular ungrouped
      (fun f hf => plain f (by simp [hf])) first (.refl rectangular) nothing undisturbed
    have ambiguous := ambiguous_of_within hz.grown.within found (header ▸ lost)
    have fails : Stage.exec ((Field.mk (.column table name) aliasName).item.resolve env) z s
        = ((.error (.ambiguousField (referenceText table name)), z), s) := by
      refine (Stage.exec_bind _ _ z s).trans ?_
      rw [Stage.exec_columnIndex?, ambiguous]
      rfl
    have resolved : Stage.exec (resolveItems (selectItems
        (before ++ .mk (.column table name) aliasName :: after)) env) v s
        = ((.error (.ambiguousField (referenceText table name)), z), s) := by
      rw [resolves, map_eq_pure_bind, List.mapM_append, bind_assoc, Stage.exec_bind_ok run,
        List.mapM_cons, bind_assoc, bind_assoc, Stage.exec_bind, fails]
      rfl
    rw [Stage.exec_runOn, exec_select_of_error kept rfl resolved]

/-- `SELECT a AS x, NULL, b` puts three fields side by side, but `SELECT a AS b, b AS a` fails: `b` is
an alias of the first column when the second field is resolved. -/
theorem fields_independent_of_undisturbed_swapped :
    let v : View := .ofRows (.ofNames "t" ["a", "b"]) [[.integer 1, .integer 2]]
    (∃ x, exec ((select (selectItems [.mk (.column none "a") (some "x"), .mk (.literal .null) none,
        .mk (.column none "b") none]) {}).runOn v) {} = (.ok x, {}) ∧
      x.fix.rows = [[.integer 1, .null, .integer 2]]) ∧
    exec ((select (selectItems [.mk (.column none "a") (some "b"), .mk (.column none "b") (some "a")])
      {}).runOn v) {} = (.error (.ambiguousField "b"), {}) := by
  intro v
  have rectangular : v.Rectangular := View.ofRows_rectangular (by decide)
  have column (name : String) (aliasName : Option String) :
      (Field.mk (.column none name) aliasName).Plain :=
    ⟨rfl, rfl, fun p hp => by cases List.mem_singleton.mp hp; rfl⟩
  have literal : (Field.mk (.literal .null) none).Plain :=
    ⟨rfl, rfl, fun p hp => by cases List.mem_singleton.mp hp; rfl⟩
  have named {g : Header} {name : String} {earlier : List Expr}
      (same : g.find? none name = v.header.find? none name)
      (missing : g.findComputed? name = v.header.findComputed? name) :
      (Expr.column none name).Undisturbed v.header g earlier := by
    refine ⟨fun _ _ h => ?_, fun _ => .inr ⟨missing, fun p hp => ?_⟩⟩
    · cases h
      exact same
    · cases List.mem_singleton.mp hp
      exact same
  constructor
  · have alone : List.Forall₂ (Field.Alone v {} {}) [.mk (.column none "a") (some "x"),
        .mk (.literal .null) none, .mk (.column none "b") none]
        [[[.integer 1]], [[.null]], [[.integer 2]]] :=
      .cons ⟨_, _, rfl, rfl, rfl⟩ (.cons ⟨_, _, rfl, rfl, rfl⟩ (.cons ⟨_, _, rfl, rfl, rfl⟩ .nil))
    have undisturbed : FieldsUndisturbed v.header v.header [] [.mk (.column none "a") (some "x"),
        .mk (.literal .null) none, .mk (.column none "b") none] := by
      refine ⟨named rfl rfl, ⟨nofun, fun _ => .inr ⟨rfl, fun p hp => ?_⟩⟩, named rfl rfl, trivial⟩
      cases List.mem_singleton.mp hp
      exact nofun
    obtain ⟨x, run, -, rows⟩ := (fields_independent_of_undisturbed
      (by simp [column, literal]) rectangular rfl alone).1 undisturbed
    exact ⟨x, run, rows⟩
  · have alone : List.Forall₂ (Field.Alone v {} {}) [.mk (.column none "a") (some "b"),
        .mk (.column none "b") (some "a")] [[[.integer 1]], [[.integer 2]]] :=
      .cons ⟨_, _, rfl, rfl, rfl⟩ (.cons ⟨_, _, rfl, rfl, rfl⟩ .nil)
    refine (fields_independent_of_undisturbed (by simp [column]) rectangular rfl alone).2
      [.mk (.column none "a") (some "b")] [] none "b" (some "a") 1 rfl ?_ rfl nofun
    exact ⟨named rfl rfl, trivial⟩

end TableQuery
