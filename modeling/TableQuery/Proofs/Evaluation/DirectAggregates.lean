import TableQuery.Proofs.Evaluation.GroupKeys
import TableQuery.Proofs.Evaluation.ImplicitGroup
import TableQuery.Proofs.Value.RowKey

/-!
# Select lists of aggregate calls

A select list of constants and aggregate calls makes one row of a view that is not grouped, in one
of two ways. Built-in aggregates are known from the list alone, and the view is grouped before the
list is resolved. An aggregate of the application is only found out when it fails for the first row;
then the view is grouped and the list is resolved again. A view without rows has no row for which a
call could fail, so that nothing groups it.
-/

namespace TableQuery

open Eval

variable {env : Env} {s t : Scope} {v w : View} {item : SelectItem} {items : List SelectItem}

/-! ## Texts of constants and calls -/

theorem Literal.getLast?_canonical (l : Literal) : l.canonical.toList.getLast? ≠ some ')' := by
  have last {s : String} (h : ')' ∉ s.toList) : s.toList.getLast? ≠ some ')' :=
    fun last => h (List.mem_of_getLast? last)
  cases l with
  | integer i => exact last (not_mem_repr (by decide) (by decide) _)
  | float f => exact last (not_mem_floatText (by decide) (by decide) f)
  | text s =>
    have quoted : (quotedText s).toList.getLast? = some '\x27' := by
      rw [quotedText, String.toList_ofList]
      exact List.getLast?_concat ..
    rw [Literal.canonical, quoted]
    decide
  | truth t => cases t <;> decide
  | null => decide

namespace Expr

theorem getLast?_of_isConstant {e : Expr} (he : e.isConstant = true) :
    e.text.toList.getLast? ≠ some ')' := by
  cases e with
  | literal l => exact l.getLast?_canonical
  | signed sign a =>
    cases a with
    | literal l =>
      rw [Expr.text, Expr.text, String.toList_append, List.getLast?_append]
      intro last
      rcases Option.or_eq_some_iff.mp last with last | ⟨-, last⟩
      · exact l.getLast?_canonical last
      · cases sign <;> cases last
    | _ => cases he
  | _ => cases he

theorem CallsAggregate.getLast? {e : Expr} (he : e.CallsAggregate s) :
    e.text.toList.getLast? = some ')' := by
  have closed (a : String) : (a ++ ")").toList.getLast? = some ')' := by
    rw [String.toList_append]
    exact List.getLast?_concat ..
  cases he with
  | aggregate name distinct args => exact closed _
  | listAggregate name distinct args order =>
    rw [Expr.text]
    split
    · rw [String.append_empty]
      exact closed _
    · rw [← String.append_assoc]
      exact closed _
  | declared => exact closed _

/-- A constant and an aggregate call are told apart by their texts. -/
theorem CallsAggregate.text_ne {call constant : Expr} (hcall : call.CallsAggregate s)
    (hconstant : constant.isConstant = true) : constant.text ≠ call.text :=
  fun same => getLast?_of_isConstant hconstant (same ▸ hcall.getLast?)

theorem namesColumns_of_isConstant {e : Expr} (he : e.isConstant = true) :
    e.namesColumns = false := by
  cases e <;> first | rfl | cases he

theorem CallsAggregate.namesColumns {e : Expr} (he : e.CallsAggregate s) :
    e.namesColumns = false := by
  cases he <;> rfl

end Expr

/-! ## Fields one by one -/

theorem Header.findComputed?_withAlias (h : Header) (i : Nat) (aliasName : Option String)
    (text : String) : (h.withAlias i aliasName).findComputed? text = h.findComputed? text := by
  cases aliasName with
  | none => rfl
  | some name => exact h.findComputed?_addAlias i name text

/-- The field is a constant or an aggregate call. -/
def SelectItem.Direct (item : SelectItem) (s : Scope) : Prop :=
  item.expr.isConstant = true ∨ item.expr.CallsAggregate s

/-- If the field is an aggregate call then some column holds its value. -/
def SelectItem.Answered (item : SelectItem) (s : Scope) (h : Header) : Prop :=
  item.expr.CallsAggregate s → h.findComputed? item.text ≠ none

namespace SelectItem

theorem Direct.namesColumns (direct : item.Direct s) : item.expr.namesColumns = false :=
  direct.elim Expr.namesColumns_of_isConstant Expr.CallsAggregate.namesColumns

/-- Without window calls nothing but the value of each row is needed. -/
theorem Direct.isEvaluated (direct : item.Direct s) (windowless : item.windows = []) :
    item.isEvaluated = true := by
  have unnamed := direct.namesColumns
  rw [SelectItem.isEvaluated, windowless, List.isEmpty_nil, Bool.true_and]
  cases e : item.expr <;> rw [e] at unnamed <;> first | rfl | cases unnamed

/-- A call that no column answers fails for the first row. -/
theorem resolve_fails (means : item.eval = fun env => item.expr.eval env)
    (call : item.expr.CallsAggregate s) (ungrouped : v.grouped = false) (rows : v.records ≠ [])
    (missing : v.header.findComputed? item.text = none) (is : List Nat) (w : View) (t : Scope) :
    Stage.exec (item.resolve env) v s ≠ ((.ok is, w), t) := by
  have unknown : ∀ b ∈ v.bindings, (env.bind b).known? item.expr = none := by
    intro b hb
    obtain ⟨r, -, rfl⟩ := List.mem_map.mp hb
    rw [Env.known?_eq, Env.computed?_bind, show item.expr.text = item.text from rfl, missing]
    split <;> rfl
  have fails : Fails (item.evalEach env v.bindings) s := by
    cases hb : v.bindings with
    | nil => exact absurd (List.map_eq_nil_iff.mp hb) rows
    | cons b bs =>
      have first : b ∈ v.bindings := hb ▸ List.mem_cons_self
      have plain : b.grouped = false := by
        obtain ⟨r, -, rfl⟩ := List.mem_map.mp first
        exact ungrouped
      rw [Operand.evalEach, List.mapM_cons, means]
      exact (call.fails plain (unknown b first)).bind _
  obtain ⟨e, error⟩ := fails.exec_eq
  rw [item.exec_resolve_missing (.inl call.namesColumns) missing, error]
  intro h
  cases h

/-- A constant and a call that a column answers are resolved, and no column is added for a call. -/
theorem exec_resolve_direct (means : item.eval = fun env => item.expr.eval env)
    (direct : item.Direct s) (answered : item.Answered s v.header) :
    ∃ is w, Stage.exec (item.resolve env) v s = ((.ok is, w), s) ∧
      ∀ call : Expr, call.CallsAggregate s →
        w.header.findComputed? call.text = v.header.findComputed? call.text := by
  have unnamed := direct.namesColumns
  cases found : v.header.findComputed? item.text with
  | some i =>
    exact ⟨_, _, item.exec_resolve_found (.inl unnamed) found,
      fun call _ => v.header.findComputed?_withAlias i _ _⟩
  | none =>
    obtain constant | call := direct
    · choose value evaluated using fun b => exec_constant (env.bind b) s constant
      have each : exec (item.evalEach env v.bindings) s = (.ok (v.bindings.map value), s) :=
        exec_mapM_of_ok fun b _ => by rw [means]; exact evaluated b
      have resolved : Stage.exec (item.resolve env) v s = _ :=
        item.exec_resolve_missing (.inl unnamed) found
      rw [each] at resolved
      refine ⟨_, _, resolved, fun call hcall => ?_⟩
      exact (Header.findComputed?_withAlias ..).trans
        (v.header.findComputed?_push_of_ne (hcall.text_ne constant))
    · exact absurd found (answered call)

/-- The fields after one that was resolved are answered as before. -/
theorem Answered.congr {h g : Header} (same : ∀ call : Expr, call.CallsAggregate s →
    g.findComputed? call.text = h.findComputed? call.text) :
    item.Answered s g ↔ item.Answered s h :=
  forall_congr' fun call => by rw [show item.text = item.expr.text from rfl, same _ call]

end SelectItem

/-! ## All fields -/

/-- Over rows the fields are resolved exactly if some column holds the value of every call. -/
theorem mapM_resolve_direct_iff (means : ∀ item ∈ items, item.eval = fun env => item.expr.eval env)
    (direct : ∀ item ∈ items, item.Direct s) (ungrouped : v.grouped = false)
    (rows : v.records ≠ []) :
    (∃ picked w t, Stage.exec (items.mapM fun item => item.resolve env) v s
        = ((.ok picked, w), t)) ↔
      ∀ item ∈ items, item.Answered s v.header := by
  induction items generalizing v with
  | nil => exact iff_of_true ⟨_, _, _, rfl⟩ (List.forall_mem_nil _)
  | cons item items ih =>
    obtain ⟨meansFirst, means⟩ := List.forall_mem_cons.mp means
    obtain ⟨directFirst, direct⟩ := List.forall_mem_cons.mp direct
    rw [List.forall_mem_cons, List.mapM_cons]
    by_cases answered : item.Answered s v.header
    · obtain ⟨is, x, first, same⟩ : ∃ is x,
          Stage.exec (item.resolve env) v s = ((.ok is, x), s) ∧ _ :=
        item.exec_resolve_direct meansFirst directFirst answered
      have grown : v.Grows x := by
        have grows := item.resolve_grows env v s
        rwa [first] at grows
      have rest := (ih means direct (grown.grouped.trans ungrouped)
        (grown.records_ne_nil rows)).trans
          (forall₂_congr fun item _ => SelectItem.Answered.congr same)
      rw [and_iff_right answered, Stage.exec_bind_ok first, ← rest]
      constructor
      · rintro ⟨picked, w, t, run⟩
        obtain ⟨others, w, t, run, -⟩ := Stage.exec_bind_eq_ok run
        exact ⟨others, w, t, run⟩
      · rintro ⟨others, w, t, run⟩
        exact ⟨is :: others, w, t, Stage.exec_bind_ok run _⟩
    · obtain ⟨call, found⟩ := Classical.not_imp.mp answered
      refine iff_of_false ?_ fun all => answered all.1
      rintro ⟨picked, w, t, run⟩
      obtain ⟨is, x, r, first, -⟩ := Stage.exec_bind_eq_ok run
      exact SelectItem.resolve_fails meansFirst call ungrouped rows (not_not.mp found) is x r first

/-- A window call adds no column but its own. -/
theorem findComputed?_of_runWindows {calls : List WindowCall} {u : PUnit} {text : String}
    (run : Stage.exec (runWindows calls env) v s = ((.ok u, w), t))
    (other : ∀ call ∈ calls, call.expr.text ≠ text) :
    w.header.findComputed? text = v.header.findComputed? text := by
  induction calls generalizing v s with
  | nil =>
    cases run
    rfl
  | cons call calls ih =>
    obtain ⟨otherFirst, other⟩ := List.forall_mem_cons.mp other
    obtain ⟨_, x, r, first, rest⟩ := Stage.exec_bind_eq_ok run
    refine (ih rest other).trans ?_
    rw [Stage.exec_bind, Stage.exec_view] at first
    dsimp only [Stage.execThen] at first
    split at first
    · obtain ⟨rs, -, spec⟩ := call.run_spec env v s
      rw [first] at spec
      obtain ⟨values, -, rfl⟩ := spec
      exact v.header.findComputed?_push_of_ne otherFirst
    · cases first
      rfl

variable {fields : List Field}

/-- The window calls of a select list declare no functions. -/
theorem runWindows_functions {u : PUnit}
    (run : Stage.exec (runWindows (windowsOf fields) env) v s = ((.ok u, w), t)) :
    t.declaredFunctions = s.declaredFunctions := by
  have agreement := functions_agreement s.declaredFunctions
  have calls : ∀ c ∈ windowsOf fields,
      c.Agrees (fun u => u.declaredFunctions = s.declaredFunctions) Eq := by
    intro c hc
    obtain ⟨item, hitem, hc⟩ := List.mem_flatMap.mp hc
    exact (selectItems_agree agreement fields (fun _ _ => trivial) item hitem).windows c hc
  have kept := (runWindows_same agreement calls (rfl : env = env) v s rfl).2
  rwa [run] at kept

/-- No column of the view and no window call of the select list answers for the field. -/
def SelectItem.Unanswered (item : SelectItem) (fields : List Field) (h : Header) : Prop :=
  h.findComputed? item.text = none ∧ ∀ call ∈ windowsOf fields, call.expr.text ≠ item.text

/-- A list with a call that nothing answers is not resolved over rows. -/
theorem resolveItems_fails (direct : ∀ item ∈ selectItems fields, item.Direct s)
    (ungrouped : v.grouped = false) (rows : v.records ≠ []) {item : SelectItem}
    (hitem : item ∈ selectItems fields) (call : item.expr.CallsAggregate s)
    (unanswered : item.Unanswered fields v.header) (indices : List Nat) (w : View) (t : Scope) :
    Stage.exec (resolveItems (selectItems fields) env) v s ≠ ((.ok indices, w), t) := by
  intro run
  obtain ⟨_, x, r, windows, run⟩ := Stage.exec_bind_eq_ok run
  obtain ⟨picked, y, q, resolved, -⟩ := Stage.exec_bind_eq_ok run
  have grown : v.Grows x := by
    have grows := runWindows_grows (windowsOf fields) env v s
    rwa [show Stage.exec (runWindows (windowsOf fields) env) v s = _ from windows] at grows
  have functions := runWindows_functions windows
  have answered := (mapM_resolve_direct_iff (s := r) (fun _ => eval_of_mem_selectItems)
    (fun item hitem => (direct item hitem).imp_right fun call => call.of_functions functions)
    (grown.grouped.trans ungrouped) (grown.records_ne_nil rows)).mp ⟨picked, y, q, resolved⟩
  refine answered item hitem (call.of_functions functions) ?_
  exact (findComputed?_of_runWindows windows unanswered.2).trans unanswered.1

/-- Constants and calls that columns answer are resolved at once, and so is everything without rows.
-/
theorem resolveItems_succeeds (direct : ∀ item ∈ selectItems fields, item.Direct s)
    (ungrouped : v.grouped = false) (windowless : windowsOf fields = [])
    (answered : v.records = [] ∨ ∀ item ∈ selectItems fields, item.Answered s v.header) :
    ∃ indices w t, Stage.exec (resolveItems (selectItems fields) env) v s
      = ((.ok indices, w), t) := by
  by_cases rows : v.records = []
  · have evaluated : ∀ item ∈ selectItems fields, item.isEvaluated = true := fun item hitem =>
      (direct item hitem).isEvaluated (List.flatMap_eq_nil_iff.mp windowless item hitem)
    obtain ⟨indices, w, run, -⟩ := resolveItems_passesEmpty evaluated env v s rows
    exact ⟨indices, w, s, run⟩
  · have means : ∀ item ∈ selectItems fields, item.eval = fun env => item.expr.eval env :=
      fun _ => eval_of_mem_selectItems
    obtain ⟨picked, w, t, run⟩ : ∃ picked w t, Stage.exec ((selectItems fields).mapM
        fun item => item.resolve env) v s = ((.ok picked, w), t) :=
      (mapM_resolve_direct_iff means direct ungrouped rows).mpr (answered.resolve_left rows)
    refine ⟨picked.flatten, w, t, ?_⟩
    rw [exec_resolveItems windowless, map_eq_pure_bind, Stage.exec_bind_ok run]
    rfl

/-! ## Both ways to group -/

/-- A list without built-in aggregates is resolved for the rows, or fails for them and then gives
one row. -/
theorem select_length_of_unaggregated (unaggregated : aggregates items = false)
    (h : Stage.exec (select items env) v s = ((.ok (), w), t)) :
    ((∃ indices x r, Stage.exec (resolveItems items env) v s = ((.ok indices, x), r)) ∧
      w.records.length = v.records.length) ∨
    ((∃ e x r, Stage.exec (resolveItems items env) v s = ((.error e, x), r)) ∧
      w.records.length = 1) := by
  have kept : v.groupFor items = v := by rw [View.groupFor, unaggregated, Bool.and_false]; rfl
  rcases tried : Stage.exec (resolveItems items env) v s with ⟨⟨e | indices, x⟩, r⟩
  · -- the second try starts from the group of all rows
    refine .inr ⟨⟨e, x, r, rfl⟩, ?_⟩
    rw [select, Stage.exec_bind, Stage.exec_modifyView] at h
    dsimp only [Stage.execThen] at h
    rw [kept] at h
    obtain ⟨indices, y, q, again, h⟩ := Stage.exec_bind_eq_ok h
    rw [resolveOrGroup, Stage.exec_bind, Stage.exec_view] at again
    dsimp only [Stage.execThen] at again
    rw [Stage.exec_tryCatch, tried] at again
    dsimp only at again
    rw [Stage.exec_bind, Stage.exec_view] at again
    dsimp only [Stage.execThen] at again
    split at again
    · have one : y.records.length = 1 := (resolveItems_picks items env).grows.length_records again
      cases h
      exact one
    · cases again
  · have same : x.records.length = v.records.length :=
      (resolveItems_picks items env).grows.length_records tried
    rw [exec_select_of_resolve kept tried] at h
    cases h
    exact .inl ⟨⟨_, _, _, rfl⟩, same⟩

/-- **A select list of constants and aggregate calls makes one row of a view that is not grouped**,
if it calls a built-in aggregate, or if the view has rows and nothing answers for one of the calls.
Otherwise, without window calls, no call is ever evaluated and the view keeps its rows: so a view
without rows stays empty if all aggregates of the list are of the application. -/
theorem direct_aggregates_make_one_row (direct : ∀ item ∈ selectItems fields, item.Direct s)
    (ungrouped : v.grouped = false)
    (h : Stage.exec (select (selectItems fields) env) v s = ((.ok (), w), t)) :
    ((aggregates (selectItems fields) = true ∨
        v.records ≠ [] ∧ ∃ item ∈ selectItems fields, item.expr.CallsAggregate s ∧
          item.Unanswered fields v.header) →
      w.records.length = 1) ∧
    (aggregates (selectItems fields) = false → windowsOf fields = [] →
      (v.records = [] ∨ ∀ item ∈ selectItems fields, item.Answered s v.header) →
        w.records.length = v.records.length) := by
  constructor
  · rintro (aggregated | ⟨rows, item, hitem, call, unanswered⟩)
    · exact select_length_of_aggregates ungrouped aggregated h
    · cases aggregated : aggregates (selectItems fields) with
      | true => exact select_length_of_aggregates ungrouped aggregated h
      | false =>
        obtain ⟨⟨indices, x, r, run⟩, -⟩ | ⟨-, one⟩ := select_length_of_unaggregated aggregated h
        · exact absurd run
            (resolveItems_fails direct ungrouped rows hitem call unanswered indices x r)
        · exact one
  · intro unaggregated windowless answered
    obtain ⟨indices, x, r, run⟩ : ∃ indices x r,
        Stage.exec (resolveItems (selectItems fields) env) v s = ((.ok indices, x), r) :=
      resolveItems_succeeds direct ungrouped windowless answered
    obtain ⟨-, same⟩ | ⟨⟨e, y, q, failed⟩, -⟩ := select_length_of_unaggregated unaggregated h
    · exact same
    · rw [run] at failed
      cases failed

/-- `SELECT 1, PROD(a)` with a function `PROD` of the application: two rows become one, and no row
stays none. -/
theorem direct_aggregates_make_one_row_declared :
    let fields : List Field :=
      [.mk (.literal (.integer 1)) none, .mk (.call "PROD" [.column none "a"]) none]
    let product : UserFunction := ⟨"PROD", 0, .aggregate fun _ _ => .ok (.integer 1)⟩
    let s : Scope := { innermost := { functions := ⟨[("PROD", product)]⟩ } }
    let view (rows : List (List Value)) : View := .ofRows (.ofNames "t" ["a"]) rows
    (∀ item ∈ selectItems fields, item.Direct s) ∧
      (∃ w t, Stage.exec (select (selectItems fields) {}) (view [[.integer 1], [.integer 2]]) s
          = ((.ok (), w), t) ∧ w.records.length = 1) ∧
      ∃ w t, Stage.exec (select (selectItems fields) {}) (view []) s = ((.ok (), w), t) ∧
        w.records.length = 0 := by
  intro fields product s view
  have declared : s.function? "PROD" = some product := by
    have upper : Text.upper "PROD" = "PROD" := by decide +kernel
    have here : s.innermost.functions.get? "PROD" = some product := by
      rw [NameMap.get?, upper]
      rfl
    rw [Scope.function?, Scope.find?, Scope.frames, List.findSome?_cons, here]
  have unscalar : ScalarFunction.ofName? "PROD" = none := by decide +kernel
  have direct : ∀ item ∈ selectItems fields, item.Direct s := by
    intro item hitem
    rcases List.mem_pair.mp hitem with rfl | rfl
    · exact .inl rfl
    · exact .inr (.declared _ unscalar declared)
  have run (rows : List (List Value)) (ran : (Stage.exec (select (selectItems fields) {})
      (view rows) s).1.1.toOption = some ()) :
      ∃ w t, Stage.exec (select (selectItems fields) {}) (view rows) s = ((.ok (), w), t) := by
    rcases h : Stage.exec (select (selectItems fields) {}) (view rows) s with ⟨⟨e | u, w⟩, t⟩
    · rw [h] at ran
      cases ran
    · exact ⟨w, t, rfl⟩
  obtain ⟨w, t, two⟩ := run [[.integer 1], [.integer 2]] (by decide +kernel)
  obtain ⟨x, r, none⟩ := run [] (by decide +kernel)
  refine ⟨direct, ⟨w, t, two, ?_⟩, x, r, none, ?_⟩
  · refine (direct_aggregates_make_one_row direct rfl two).1 (.inr ⟨by decide, ?_⟩)
    exact ⟨_, List.mem_cons_of_mem _ List.mem_cons_self, .declared _ unscalar declared, rfl,
      List.forall_mem_nil _⟩
  · exact (direct_aggregates_make_one_row direct rfl none).2 rfl rfl (.inl rfl)

end TableQuery
