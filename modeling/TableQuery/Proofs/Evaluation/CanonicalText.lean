import TableQuery.Proofs.Evaluation.FieldIndependence
import TableQuery.Proofs.Syntax.Identity

/-!
# What is answered by text

While the fields of a select list and then the sort keys of its query are resolved, the column of a
text answers for every expression with that text. Among expressions that canonical text identifies,
that column only holds values of the expression itself.
-/

namespace TableQuery

open Eval TableQuery.Language

variable {env : Env} {s : Scope} {v w : View} {e a b : Expr} {fields : List Field}
  {order : List OrderItem} {key : OrderKey}

/-! ## Selected columns -/

/-- The selected columns are of no concern to what fields and sort keys do. -/
theorem View.Grows.select (h : v.Grows w) (selected : Option (List Nat)) :
    View.Grows { v with selected } { w with selected } := by
  induction h with
  | refl => exact .refl _
  | tail _ change ih =>
    refine ih.trans (View.Change.grows ?_)
    cases change with
    | reorder perm => exact .reorder perm
    | push missing length => exact .push missing length
    | addAlias i name => exact .addAlias i name

theorem Binding.Before.select {q : Record} {text : String} {c : Binding} (h : c.Before v w q text)
    (selected : Option (List Nat)) : c.Before { v with selected } { w with selected } q text where
  grown := h.grown
  missing := h.missing
  passed := by
    obtain ⟨x, before, after, member⟩ := h.passed
    exact ⟨{ x with selected }, before.select selected, after.select selected, member⟩

theorem View.Traces.select (h : v.Traces e env s w) (selected : Option (List Nat)) :
    View.Traces { v with selected } e env s { w with selected } where
  grows := h.grows.select selected
  rectangular := h.rectangular
  records r member := by
    obtain ⟨q, hq, grown, computed⟩ := h.records r member
    refine ⟨q, hq, grown, fun i found => ?_⟩
    obtain ⟨c, before, value⟩ := computed i found
    exact ⟨c, before.select selected, value⟩

/-! ## Sort keys -/

/-- All window calls of the sort keys of a query. -/
def orderWindowsOf (order : List OrderItem) : List WindowCall :=
  (orderKeys order).flatMap OrderKey.windows

/-- The view `w` is what a select list makes of the view `v`, or what some of the sort keys behind
it, and then some of their window calls, make of that view with its selected columns. -/
def View.ReachesOrder (v : View) (fields : List Field) (order : List OrderItem) (env : Env)
    (s : Scope) (w : View) : Prop :=
  ∃ (x : View) (selected : Option (List Nat)) (keys : List OrderKey) (calls : List WindowCall),
    v.Reaches fields env s x ∧ keys ⊆ orderKeys order ∧ calls ⊆ orderWindowsOf order ∧
    (Stage.exec (do
      let _ ← keys.mapM fun key => key.resolve env
      runWindows calls env) { x with selected } s).1.2 = w

/-- The sort key of an item. -/
def OrderItem.sortKey : OrderItem → OrderKey
  | .mk key direction nulls =>
    { expr := key, eval := fun env => key.eval env
      order := (OrderItem.mk key direction nulls).keyOrder
      windows := key.windowCalls }

theorem orderKeys_eq_map (order : List OrderItem) :
    orderKeys order = order.map OrderItem.sortKey := by
  induction order with
  | nil => rfl
  | cons item order ih =>
    obtain ⟨e, direction, nulls⟩ := item
    rw [orderKeys, ih]
    rfl

/-- A sort key means what its expression means. -/
theorem eval_of_mem_orderKeys (h : key ∈ orderKeys order) :
    key.eval = fun env => key.expr.eval env := by
  rw [orderKeys_eq_map] at h
  obtain ⟨⟨e, direction, nulls⟩, -, rfl⟩ := List.mem_map.mp h
  rfl

theorem unassigned_of_mem_orderKeys (plain : Unassigned (partsOfOrder order))
    (h : key ∈ orderKeys order) : Unassigned key.expr.parts := by
  induction order with
  | nil => cases h
  | cons item order ih =>
    obtain ⟨e, direction, nulls⟩ := item
    simp only [partsOfOrder, Unassigned, allParts_append] at plain
    rw [orderKeys] at h
    rcases List.mem_cons.mp h with rfl | h
    · exact plain.1
    · exact ih plain.2 h

theorem OrderKey.resolve_keeps_traces (ho : key.eval = fun env => key.expr.eval env)
    (plain : Unassigned key.expr.parts) (own : key.text = e.text → key.expr = e)
    (windows : Stage.Keeps s (v.Traces e env s) (runWindows key.windows env)) :
    Stage.Keeps s (v.Traces e env s) (key.resolve env) := by
  have computed : Stage.Keeps s (v.Traces e env s) (Stage.computedColumn key.toOperand env) :=
    computedColumn_keeps_traces ho plain own
  unfold OrderKey.resolve
  split
  · refine Stage.Keeps.view.bind fun v => ?_
    split
    · exact .pure _
    · exact .lift (.error _)
  · refine (Stage.columnIndex?_keeps _ _).bind fun i? => ?_
    split
    · exact .pure _
    · exact computed
  · exact windows.bind fun _ => computed

/-- Every view on the way of a select list and its sort keys traces its computed columns, if nothing
but `e` itself is computed under the text of `e`. -/
theorem View.Traces.of_reachesOrder (start : v.Traces e env s v)
    (plainFields : Unassigned (partsOfFields fields)) (plainKeys : Unassigned (partsOfOrder order))
    (own : e.OwnsText fields) (ownKeys : ∀ key ∈ orderKeys order, key.text = e.text → key.expr = e)
    (ownWindows : ∀ call ∈ orderWindowsOf order, call.expr.text ≠ e.text)
    (reached : v.ReachesOrder fields order env s w) :
    View.Traces { v with selected := w.selected } e env s w := by
  obtain ⟨x, selected, keys, calls, first, hkeys, hcalls, rfl⟩ := reached
  have agree := orderKeys_agree (unassigned_agreement s) order plainKeys
  have windows {calls : List WindowCall} (among : calls ⊆ orderWindowsOf order) :
      Stage.Keeps s (View.Traces { v with selected } e env s) (runWindows calls env) := by
    refine runWindows_keeps_traces (fun call member => ?_) fun call member =>
      ownWindows call (among member)
    obtain ⟨key, hkey, hcall⟩ := List.mem_flatMap.mp (among member)
    exact (agree key hkey).windows call hcall
  have resolved : Stage.Keeps s (View.Traces { v with selected } e env s)
      (keys.mapM fun key => key.resolve env) := by
    refine .mapM fun key member => OrderKey.resolve_keeps_traces
      (eval_of_mem_orderKeys (hkeys member)) (unassigned_of_mem_orderKeys plainKeys (hkeys member))
      (ownKeys key (hkeys member)) (windows fun call hcall => ?_)
    exact List.mem_flatMap.mpr ⟨key, hkeys member, hcall⟩
  -- the view of the select list traces `e`; before the keys only its selected columns change
  have traced := ((resolved.bind fun _ => windows hcalls) _
    ((start.of_reaches plainFields own first).select selected)).2
  rwa [traced.grows.selected]

/-! ## Identity -/

namespace Language.CanonicalParts

theorem of_item (h : CanonicalParts fields order) {item : SelectItem}
    (member : item ∈ selectItems fields) :
    Canonical item.expr ∧ item.windows = item.expr.windowCalls := by
  rw [selectItems_eq_map] at member
  obtain ⟨⟨e, aliasName⟩, field, rfl⟩ := List.mem_map.mp member
  exact ⟨h.fields e aliasName field, rfl⟩

theorem of_key (h : CanonicalParts fields order) (member : key ∈ orderKeys order) :
    Canonical key.expr ∧ key.windows = key.expr.windowCalls := by
  rw [orderKeys_eq_map] at member
  obtain ⟨⟨e, direction, nulls⟩, item, rfl⟩ := List.mem_map.mp member
  exact ⟨h.order e direction nulls item, rfl⟩

/-- All window calls are read back from their texts, too. -/
theorem windows (h : CanonicalParts fields order) :
    ReadBackCalls (windowsOf fields ++ orderWindowsOf order) := by
  intro call member
  rcases List.mem_append.mp member with first | last
  · obtain ⟨item, hitem, hcall⟩ := List.mem_flatMap.mp first
    obtain ⟨canonical, calls⟩ := h.of_item hitem
    exact canonical.windowCalls call (calls ▸ hcall)
  · obtain ⟨key, hkey, hcall⟩ := List.mem_flatMap.mp last
    obtain ⟨canonical, calls⟩ := h.of_key hkey
    exact canonical.windowCalls call (calls ▸ hcall)

end Language.CanonicalParts

/-- **Canonical text identifies an expression**: two that were parsed and can be printed have the
same value everywhere if they have the same text. So while fields and sort keys of this kind are
resolved without assignments, what is computed under the text of one of them is the other one. A
window call with that text is the expression itself. If the expression is no window call, the column
of that text holds, for each record, the value that the expression had on it before there was the
column. -/
theorem canonical_text_identifies (ha : Canonical a) (hb : Canonical b) (same : a.text = b.text)
    (parts : CanonicalParts fields order) (plainFields : Unassigned (partsOfFields fields))
    (plainKeys : Unassigned (partsOfOrder order)) (rectangular : v.Rectangular)
    (missing : v.header.findComputed? a.text = none)
    (reached : v.ReachesOrder fields order env s w) :
    (∀ (around : Env) (t : Scope), exec (a.eval around) t = exec (b.eval around) t) ∧
    (∀ call ∈ windowsOf fields ++ orderWindowsOf order, call.expr.text = a.text → call.expr = b) ∧
    ((∀ call ∈ windowsOf fields ++ orderWindowsOf order, call.expr ≠ b) →
      ∀ r ∈ w.records, ∀ i, w.header.findComputed? a.text = some i →
        ∃ q ∈ v.records, q.Grown r ∧ ∃ c : Binding,
          c.Before { v with selected := w.selected } w q a.text ∧
          exec (b.eval (env.bind c)) s = (.ok (r.value i), s)) := by
  obtain rfl : a = b := ha.readBack.eq_of_text_eq hb.readBack same
  have identified (call : WindowCall) (member : call ∈ windowsOf fields ++ orderWindowsOf order)
      (text : call.expr.text = a.text) : call.expr = a :=
    (parts.windows call member).eq_of_text_eq ha.readBack text
  refine ⟨fun _ _ => rfl, identified, fun single r member i found => ?_⟩
  -- a window call under the text would be `a`, so what has the text is a field or a key
  have own : a.OwnsText fields := by
    refine ⟨fun item hitem text => ?_, fun call hcall text => ?_⟩
    · exact (parts.of_item hitem).1.readBack.eq_of_text_eq ha.readBack text
    · exact single call (by simp [hcall]) (identified call (by simp [hcall]) text)
  have traced := (View.Traces.start rectangular missing).of_reachesOrder plainFields plainKeys own
    (fun key hkey text => (parts.of_key hkey).1.readBack.eq_of_text_eq ha.readBack text)
    (fun call hcall text => single call (by simp [hcall]) (identified call (by simp [hcall]) text))
    reached
  obtain ⟨q, hq, grown, computed⟩ := traced.records r member
  obtain ⟨c, before, value⟩ := computed i found
  exact ⟨q, hq, grown, c, before, value⟩

/-- A sort key with the text of the field before it. -/
def keyedText : String :=
  "SELECT t.a+0 FROM t ORDER BY `t`.a + 0"

def keyedLexemes : List Lexeme :=
  [⟨.keyword .select, 0⟩, ⟨.identifier "t", 7⟩, ⟨.symbol .dot, 8⟩, ⟨.identifier "a", 9⟩,
    ⟨.symbol .plus, 10⟩, ⟨.integer 0, 11⟩, ⟨.keyword .from, 13⟩, ⟨.identifier "t", 18⟩,
    ⟨.keyword .order, 20⟩, ⟨.keyword .by, 26⟩, ⟨.quoted "t", 29⟩, ⟨.symbol .dot, 32⟩,
    ⟨.identifier "a", 33⟩, ⟨.symbol .plus, 35⟩, ⟨.integer 0, 37⟩, ⟨.ending, 38⟩]

/-- The field and the sort key of `keyedText`. -/
def keyedSum : Expr :=
  .arith .add (.column (some "t") "a") (.literal (.integer 0))

/-- The key is answered by the column of the field, also if there is a column named `t.a`. -/
theorem canonical_text_identifies_keyed :
    let v : View := .ofRows (.ofNames "t" ["a", "t.a"]) [[.integer 1, .integer 2]]
    CanonicalParts [.mk keyedSum none] [.mk keyedSum none none] ∧
    ∃ w, v.ReachesOrder [.mk keyedSum none] [.mk keyedSum none none] {} {} w ∧
      w.header.findComputed? keyedSum.text = some 2 ∧ w.header.width = 3 ∧
      ∃ r ∈ w.records, r.value 2 = .integer 1 ∧
        ∃ c : Binding, c.header.findComputed? keyedSum.text = none ∧
          exec (keyedSum.eval (Env.bind {} c)) {} = (.ok (.integer 1), {}) := by
  intro v
  have lexed : (lexemes keyedText).toOption = some keyedLexemes := by decide +kernel
  have parsed : parseQuery keyedText = .ok (.mk false [] (.select false [.mk keyedSum none]
      [.named "t" none] none [] none) [.mk keyedSum none none] none .all) :=
    parseWith_eq_ok.2 ⟨keyedLexemes, [], toOption_eq_some lexed, rfl⟩
  have printable : keyedSum.Printable := by
    simp only [keyedSum, Expr.Printable, Literal.Printable]
    decide +kernel
  have parts : CanonicalParts [.mk keyedSum none] [.mk keyedSum none none] :=
    canonicalParts_of_parsed parsed ⟨printable, rfl, trivial⟩ ⟨printable, trivial⟩
  have canonical : Canonical keyedSum := parts.fields keyedSum none List.mem_cons_self
  have unassigned : Unassigned keyedSum.parts := by
    unfold Unassigned AllParts
    decide
  let x : View := (Stage.exec (do
    runWindows [] {}
    (selectItems [.mk keyedSum none]).mapM fun item => item.resolve {}) v {}).1.2
  let w : View := (Stage.exec (do
    let _ ← (orderKeys [.mk keyedSum none none]).mapM fun key => key.resolve {}
    runWindows [] {}) { x with selected := some [2] } {}).1.2
  have reached : v.ReachesOrder [.mk keyedSum none] [.mk keyedSum none none] {} {} w :=
    ⟨x, some [2], _, [], ⟨[], _, List.nil_subset _, List.Subset.refl _, rfl⟩, List.Subset.refl _,
      List.nil_subset _, rfl⟩
  have rectangular : v.Rectangular := View.ofRows_rectangular (by decide)
  obtain ⟨-, -, computed⟩ := canonical_text_identifies canonical canonical rfl parts
    (by simpa [partsOfFields, Unassigned] using unassigned)
    (by simpa [partsOfOrder, Unassigned] using unassigned) rectangular rfl reached
  let r : Record := .ofValues [.integer 1, .integer 2, .integer 1]
  have member : r ∈ w.records := by
    have records : w.records = [r] := by rfl
    simp [records]
  obtain ⟨q, -, -, c, before, value⟩ := computed (fun _ among => absurd among List.not_mem_nil) r member 2 rfl
  exact ⟨parts, w, reached, rfl, rfl, r, member, rfl, c, before.missing, value⟩

end TableQuery
