import TableQuery.Proofs.Evaluation.Frame
import TableQuery.Proofs.Evaluation.Growth
import TableQuery.Proofs.Evaluation.Results
import TableQuery.Proofs.Evaluation.Rows
import TableQuery.Proofs.Table.Lookup

/-!
# What computed columns hold

While a select list is resolved, an expression that was computed is not computed again: the column
of its text answers for it. Without assignments that column holds the value that the expression had
on the same record when the column was added.
-/

namespace TableQuery

open Eval

variable {α β : Type} {s : Scope} {Q : View → Prop}

/-! ## Stages that keep a property of the view -/

namespace Stage

/-- From the scope `s` the stage stays in it, and what holds of the view holds of the view that it
leaves, even if it fails. -/
def Keeps (s : Scope) (Q : View → Prop) (x : Stage α) : Prop :=
  ∀ v, Q v → (exec x v s).2 = s ∧ Q (exec x v s).1.2

theorem Keeps.of_view_eq {x : Stage α} (h : ∀ v, exec x v s = (((exec x v s).1.1, v), s)) :
    Keeps s Q x := by
  intro v hv
  rw [h]
  exact ⟨rfl, hv⟩

theorem Keeps.pure (a : α) : Keeps s Q (pure a) :=
  .of_view_eq fun _ => rfl

theorem Keeps.view : Keeps s Q Stage.view :=
  .of_view_eq fun _ => rfl

theorem Keeps.lift (x : Except QueryError α) : Keeps s Q (liftM x : Stage α) :=
  .of_view_eq fun _ => rfl

theorem Keeps.bind {x : Stage α} {f : α → Stage β} (hx : Keeps s Q x)
    (hf : ∀ a, Keeps s Q (f a)) : Keeps s Q (x >>= f) := by
  intro v hv
  obtain ⟨hs, hq⟩ := hx v hv
  rw [exec_bind]
  generalize exec x v s = r at hs hq ⊢
  obtain ⟨⟨_ | a, w⟩, t⟩ := r
  · exact ⟨hs, hq⟩
  · cases hs
    exact hf a w hq

theorem Keeps.mapM {f : α → Stage β} {as : List α} (h : ∀ a ∈ as, Keeps s Q (f a)) :
    Keeps s Q (as.mapM f) := by
  induction as with
  | nil => exact .pure []
  | cons a as ih =>
    rw [List.mapM_cons]
    refine (h a (by simp)).bind fun b => ?_
    exact (ih fun c hc => h c (by simp [hc])).bind fun bs => .pure (b :: bs)

theorem Keeps.forM {f : α → Stage PUnit} {as : List α} (h : ∀ a ∈ as, Keeps s Q (f a)) :
    Keeps s Q (as.forM f) := by
  induction as with
  | nil => exact .pure PUnit.unit
  | cons a as ih =>
    exact (h a (by simp)).bind fun _ => ih fun c hc => h c (by simp [hc])

end Stage

/-! ## Records and their past -/

/-- The binding is that of the record `q` of the view `v`, at a view between `v` and `w` that has no
column for the text. -/
structure Binding.Before (v w : View) (q : Record) (text : String) (b : Binding) : Prop where
  grown : q.Grown b.record
  missing : b.header.findComputed? text = none
  passed : ∃ x : View, v.Grows x ∧ x.Grows w ∧ b ∈ x.bindings

/-- Every record of the view `w` is one of the view `v` with computed values, and a column of the
text of `e` holds the value that `e` had on that record before. -/
structure View.Traces (v : View) (e : Expr) (env : Env) (s : Scope) (w : View) : Prop where
  grows : v.Grows w
  rectangular : w.Rectangular
  records : ∀ r ∈ w.records, ∃ q ∈ v.records, q.Grown r ∧
    ∀ i, w.header.findComputed? e.text = some i →
      ∃ b, b.Before v w q e.text ∧ exec (e.eval (env.bind b)) s = (.ok (r.value i), s)

variable {v w x : View} {q r : Record} {b : Binding} {e : Expr} {env : Env}

theorem Binding.Before.later {text : String} (h : b.Before v w q text) (hw : w.Grows x) :
    b.Before v x q text where
  grown := h.grown
  missing := h.missing
  passed := by
    obtain ⟨y, before, after, hb⟩ := h.passed
    exact ⟨y, before, after.trans hw, hb⟩

namespace View.Traces

/-- Before anything is computed. -/
theorem start (rectangular : v.Rectangular) (missing : v.header.findComputed? e.text = none) :
    v.Traces e env s v where
  grows := .refl v
  rectangular := rectangular
  records r hr := by
    refine ⟨r, hr, .refl r, fun i hi => ?_⟩
    rw [missing] at hi
    cases hi

/-- A change that leaves the records and what is computed for them alone. -/
theorem of_change (h : v.Traces e env s w) (change : w.Change x) (hr : x.records ⊆ w.records)
    (hc : x.header.findComputed? e.text = w.header.findComputed? e.text) :
    v.Traces e env s x where
  grows := h.grows.trans change.grows
  rectangular := change.rectangular h.rectangular
  records r hx := by
    obtain ⟨q, hq, grown, computed⟩ := h.records r (hr hx)
    refine ⟨q, hq, grown, fun i hi => ?_⟩
    obtain ⟨b, before, value⟩ := computed i (hc ▸ hi)
    exact ⟨b, before.later change.grows, value⟩

theorem reorder (h : v.Traces e env s w) {rs : List Record} (perm : rs.Perm w.records) :
    v.Traces e env s { w with records := rs } :=
  h.of_change (.reorder perm) perm.subset rfl

theorem addAlias (h : v.Traces e env s w) (i : Nat) (name : String) :
    v.Traces e env s { w with header := w.header.modify i fun c => c.addAlias name } :=
  h.of_change (.addAlias i name) (List.Subset.refl _) (Header.findComputed?_addAlias ..)

/-- A column that is added for `e` holds the values of `e`; other columns are of no concern. -/
theorem push (h : v.Traces e env s w) {text : String} {values : List Value}
    (missing : w.header.findComputed? text = none) (length : values.length = w.records.length)
    (hvalues : text = e.text →
      List.Forall₂ (fun b a => exec (e.eval (env.bind b)) s = (.ok a, s)) w.bindings values) :
    v.Traces e env s (w.pushColumn (.computed text) values) := by
  have change : w.Change (w.pushColumn (.computed text) values) := .push missing length
  refine ⟨h.grows.trans change.grows, change.rectangular h.rectangular, fun r hr => ?_⟩
  obtain ⟨j, hj, rfl⟩ := List.mem_iff_getElem.mp hr
  simp only [pushColumn, List.length_zipWith, Nat.lt_min] at hj
  obtain ⟨hrecord, hvalue⟩ := hj
  have hat : (w.pushColumn (.computed text) values).records[j]
      = w.records[j].push (.ofValue values[j]) := List.getElem_zipWith
  rw [hat]
  have hwidth := h.rectangular _ (List.getElem_mem hrecord)
  obtain ⟨q, hq, grown, computed⟩ := h.records _ (List.getElem_mem hrecord)
  refine ⟨q, hq, grown.push _, fun i hi => ?_⟩
  have hi : (w.header.push (.computed text)).findComputed? e.text = some i := hi
  rw [Header.findComputed?_push] at hi
  cases hf : w.header.findComputed? e.text with
  | some k =>
    -- the earlier column still answers, and its cell is not moved by the new one
    rw [hf] at hi
    cases hi
    obtain ⟨b, before, value⟩ := computed i hf
    refine ⟨b, before.later change.grows, ?_⟩
    have same := (Record.extends_append hwidth (.ofValues [values[j]])).value_eq
      (Header.lt_of_findComputed? hf)
    exact value.trans (congrArg (fun a => (Except.ok a, s)) same.symm)
  | none =>
    rw [hf, Option.none_or] at hi
    split at hi
    · rename_i htext
      cases hi
      have htext : text = e.text := eq_of_beq (Bool.and_eq_true_iff.mp htext).2
      -- the column is the one of `e`, so its value was computed just now
      have hbinding : j < w.bindings.length := by simpa [bindings] using hrecord
      have hb : w.bindings[j]
          = { header := w.header, record := w.records[j], grouped := w.grouped } :=
        List.getElem_map _
      have value := (List.forall₂_iff_get.mp (hvalues htext)).2 j hbinding hvalue
      rw [List.get_eq_getElem, List.get_eq_getElem, hb] at value
      refine ⟨_, ⟨grown, htext ▸ missing, w, h.grows, change.grows, ?_⟩, value.trans ?_⟩
      · exact hb ▸ List.getElem_mem _
      · rw [← hwidth, Record.value_push]
    · cases hi

end View.Traces

/-! ## The select list -/

variable {o : Operand} {call : WindowCall}

theorem computedColumn_keeps_traces (ho : o.eval = fun env => o.expr.eval env)
    (hplain : Unassigned o.expr.parts) (own : o.text = e.text → o.expr = e) :
    Stage.Keeps s (v.Traces e env s) (Stage.computedColumn o env) := by
  intro w hw
  rw [Stage.exec_computedColumn]
  cases hf : w.header.findComputed? o.text with
  | some i => exact ⟨rfl, hw⟩
  | none =>
    dsimp only
    -- without assignments every record is evaluated in the scope `s`, so the values are those of
    -- single evaluations
    have stays (b : Binding) : (exec (o.eval (env.bind b)) s).2 = s := by
      rw [ho]
      exact (o.expr.eval_same (unassigned_agreement s) hplain rfl).keeps rfl
    have all : exec (o.evalEach env w.bindings) s = _ := exec_mapM_of_stays fun b _ => stays b
    rw [all]
    cases hm : w.bindings.mapM fun b => (exec (o.eval (env.bind b)) s).1 with
    | error err => exact ⟨rfl, hw⟩
    | ok values =>
      have each := mapM_eq_ok_iff.mp hm
      have length : values.length = w.records.length := by
        rw [← each.length_eq, View.bindings, List.length_map]
      refine ⟨rfl, hw.push hf length fun same => each.imp fun b a hvalue => ?_⟩
      rw [← own same]
      have whole : exec (o.eval (env.bind b)) s = (.ok a, s) := Prod.ext hvalue (stays b)
      rwa [ho] at whole

theorem addAlias_keeps_traces (i : Nat) (aliasName : Option String) :
    Stage.Keeps s (v.Traces e env s) (Stage.addAlias i aliasName) := by
  unfold Stage.addAlias
  split
  · exact fun w hw => ⟨rfl, hw.addAlias i _⟩
  · exact .pure _

theorem Stage.columnIndex?_keeps (table : Option String) (name : String) :
    Stage.Keeps s Q (Stage.columnIndex? table name) := by
  refine .of_view_eq fun w => ?_
  rw [Stage.exec_columnIndex?]
  split
  · rfl
  · rfl
  · dsimp only
    split <;> rfl

theorem resolve_keeps_traces {item : SelectItem} (ho : item.eval = fun env => item.expr.eval env)
    (hplain : Unassigned item.expr.parts) (own : item.text = e.text → item.expr = e) :
    Stage.Keeps s (v.Traces e env s) (item.resolve env) := by
  have computed : Stage.Keeps s (v.Traces e env s) (Stage.computedColumn item.toOperand env) :=
    computedColumn_keeps_traces ho hplain own
  have last (i : Nat) : Stage.Keeps s (v.Traces e env s)
      (do Stage.addAlias i item.aliasName; return [i]) :=
    (addAlias_keeps_traces i _).bind fun _ => .pure _
  unfold SelectItem.resolve
  split
  · exact Stage.Keeps.view.bind fun v => .pure _
  · exact Stage.Keeps.view.bind fun v => .lift _
  · refine (Stage.columnIndex?_keeps _ _).bind fun i? => ?_
    dsimp only
    split
    · exact (Stage.Keeps.pure _).bind last
    · exact computed.bind last
  · exact computed.bind last

theorem windowRun_keeps_traces (stays : ∀ w, (Stage.exec (call.run env) w s).2 = s)
    (other : call.expr.text ≠ e.text) :
    Stage.Keeps s (v.Traces e env s) (do
      if ((← Stage.view).header.findComputed? call.expr.text).isNone then call.run env) := by
  intro w hw
  rw [Stage.exec_bind, Stage.exec_view]
  dsimp only [Stage.execThen]
  cases hf : w.header.findComputed? call.expr.text with
  | some i => exact ⟨rfl, hw⟩
  | none =>
    refine ⟨stays w, ?_⟩
    show v.Traces e env s (Stage.exec (call.run env) w s).1.2
    obtain ⟨rs, perm, h⟩ := call.run_spec env w s
    have reordered := hw.reorder perm
    generalize Stage.exec (call.run env) w s = result at h ⊢
    obtain ⟨⟨_ | _, x⟩, t⟩ := result
    · dsimp only at h
      rw [h]
      exact reordered
    · obtain ⟨values, length, rfl⟩ := h
      exact reordered.push hf length fun same => absurd same other

/-- Window calls without assignments, none of which is computed under the text of `e`. -/
theorem runWindows_keeps_traces {calls : List WindowCall}
    (agree : ∀ call ∈ calls, call.Agrees (· = s) Eq)
    (other : ∀ call ∈ calls, call.expr.text ≠ e.text) :
    Stage.Keeps s (v.Traces e env s) (runWindows calls env) := by
  refine .forM fun call member => windowRun_keeps_traces (fun w => ?_) (other call member)
  have same := WindowCall.run_same (unassigned_agreement s) (agree call member) (rfl : env = env)
  exact (same w s rfl).2

/-- A field of the select list means what its expression means. -/
theorem eval_of_mem_selectItems {fields : List Field} {item : SelectItem}
    (h : item ∈ selectItems fields) : item.eval = fun env => item.expr.eval env := by
  match fields with
  | [] => cases h
  | .mk e aliasName :: fields =>
    rw [selectItems] at h
    cases h with
    | head => rfl
    | tail _ h => exact eval_of_mem_selectItems h

theorem unassigned_of_mem_selectItems {fields : List Field} {item : SelectItem}
    (hf : Unassigned (partsOfFields fields)) (h : item ∈ selectItems fields) :
    Unassigned item.expr.parts := by
  match fields with
  | [] => cases h
  | .mk e aliasName :: fields =>
    simp only [partsOfFields, Unassigned, allParts_append] at hf
    rw [selectItems] at h
    cases h with
    | head => exact hf.1
    | tail _ h => exact unassigned_of_mem_selectItems hf.2 h

/-- All window calls of a select list. -/
def windowsOf (fields : List Field) : List WindowCall :=
  (selectItems fields).flatMap SelectItem.windows

/-- The view `w` is what some of the window calls of a select list, and then some of its fields,
make of the view `v`. -/
def View.Reaches (v : View) (fields : List Field) (env : Env) (s : Scope) (w : View) : Prop :=
  ∃ (calls : List WindowCall) (items : List SelectItem), calls ⊆ windowsOf fields ∧
    items ⊆ selectItems fields ∧
    (Stage.exec (do
      runWindows calls env
      items.mapM fun item => item.resolve env) v s).1.2 = w

/-- Nothing but `e` itself is computed under the text of `e`. -/
structure Expr.OwnsText (e : Expr) (fields : List Field) : Prop where
  items : ∀ item ∈ selectItems fields, item.text = e.text → item.expr = e
  windows : ∀ call ∈ windowsOf fields, call.expr.text ≠ e.text

variable {fields : List Field}

/-- Every view on the way of a select list without assignments traces its computed columns. -/
theorem View.Traces.of_reaches (start : v.Traces e env s v)
    (hplain : Unassigned (partsOfFields fields)) (own : e.OwnsText fields)
    (reached : v.Reaches fields env s w) : v.Traces e env s w := by
  obtain ⟨calls, items, hcalls, hitems, rfl⟩ := reached
  have agree := selectItems_agree (unassigned_agreement s) fields hplain
  have windows : Stage.Keeps s (v.Traces e env s) (runWindows calls env) := by
    refine runWindows_keeps_traces (fun call hc => ?_) fun call hc => own.windows call (hcalls hc)
    obtain ⟨item, hi, hw⟩ := List.mem_flatMap.mp (hcalls hc)
    exact (agree item hi).windows call hw
  have fields : Stage.Keeps s (v.Traces e env s) (items.mapM fun item => item.resolve env) :=
    .mapM fun item hi => resolve_keeps_traces (eval_of_mem_selectItems (hitems hi))
      (unassigned_of_mem_selectItems hplain (hitems hi)) (own.items item (hitems hi))
  exact ((windows.bind fun _ => fields) v start).2

/-- On the way of a select list an expression has the value that it had on the record of which its
own record is grown, before it was computed. -/
theorem View.Traces.eval_grown (h : v.Traces e env s w) (looked : e.lookedUp) {b : Binding}
    (hb : b ∈ w.bindings) :
    ∃ q ∈ v.records, q.Grown b.record ∧ ∃ b' : Binding, b'.Before v w q e.text ∧
      (w.header.findComputed? e.text = none → b' = b) ∧
      exec (e.eval (env.bind b)) s = exec (e.eval (env.bind b')) s := by
  obtain ⟨r, hr, rfl⟩ := List.mem_map.mp hb
  obtain ⟨q, hq, grown, computed⟩ := h.records r hr
  refine ⟨q, hq, grown, ?_⟩
  cases hf : w.header.findComputed? e.text with
  | none => exact ⟨_, ⟨grown, hf, w, h.grows, .refl w, hb⟩, fun _ => rfl, rfl⟩
  | some i =>
    obtain ⟨b', before, value⟩ := computed i hf
    have known : (env.bind { header := w.header, record := r, grouped := w.grouped }).known? e
        = some (r.value i) := by
      rw [Env.known?_eq, if_pos looked, Env.computed?_bind, hf]
      rfl
    refine ⟨b', before, ?_, .trans ?_ value.symm⟩
    · exact fun missing => by cases missing
    rw [Expr.eval_of_known known]
    rfl

/-- On the way of a select list an expression has the value that it had on the same record before it
was computed. -/
theorem View.Traces.eval_eq (h : v.Traces e env s w) (looked : e.lookedUp) {b : Binding}
    (hb : b ∈ w.bindings) :
    ∃ q ∈ v.records, ∃ b' : Binding, b'.Before v w q e.text ∧
      (w.header.findComputed? e.text = none → b' = b) ∧
      exec (e.eval (env.bind b)) s = exec (e.eval (env.bind b')) s := by
  obtain ⟨q, hq, -, past⟩ := h.eval_grown looked hb
  exact ⟨q, hq, past⟩

end TableQuery
