import Mathlib.Data.List.Basic
import TableQuery.Evaluation.Meaning
import TableQuery.Proofs.Evaluation.WellFormed

/-!
# The columns that sort keys add

A sort key that no column holds is computed into a column of its own. After a select list the
selection drops it again, but nothing does after a set operation or a query in parentheses.
-/

namespace TableQuery

open Eval

variable {v w : View} {env : Env} {s t : Scope}

/-! ## Headers with computed columns -/

namespace Header

/-- Whether a computed column of the text is there. -/
def Holds (h : Header) (text : String) : Prop :=
  (h.findComputed? text).isSome

/-- The header with a computed column of the text, which is added unless it is there. -/
def withText (h : Header) (text : String) : Header :=
  match h.findComputed? text with
  | some _ => h
  | none => h.push (.computed text)

/-- The header with computed columns of all texts. -/
def withTexts (h : Header) (texts : List String) : Header :=
  texts.foldl withText h

/-- The columns of one header come first in another. -/
def Before (h k : Header) : Prop :=
  h.columns <+: k.columns

theorem withText_before (h : Header) (text : String) : h.Before (h.withText text) := by
  unfold withText
  split
  · exact List.prefix_refl _
  · exact List.prefix_append _ _

theorem withTexts_before (h : Header) (texts : List String) : h.Before (h.withTexts texts) := by
  induction texts generalizing h with
  | nil => exact List.prefix_refl _
  | cons text texts ih => exact (h.withText_before text).trans (ih _)

theorem Before.width_le {h k : Header} (hk : h.Before k) : h.width ≤ k.width :=
  List.IsPrefix.length_le hk

theorem Before.eq_of_width {h k : Header} (hk : h.Before k) (hw : k.width = h.width) : k = h := by
  cases h
  cases k
  exact congrArg Header.mk (List.IsPrefix.eq_of_length hk hw.symm).symm

/-- The columns that were there are projected alike. -/
theorem Before.project {h k : Header} (hk : h.Before k) {indices : List Nat}
    (hi : ∀ i ∈ indices, i < h.width) : k.project indices = h.project indices := by
  unfold Header.project
  refine congrArg Header.mk (List.filterMap_congr fun i him => ?_)
  obtain ⟨added, hadded⟩ := hk
  rw [← hadded, List.getElem?_append_left (hi i him)]

/-- Nothing is added exactly if all texts are there. -/
theorem withTexts_eq_iff (h : Header) (texts : List String) :
    h.withTexts texts = h ↔ ∀ text ∈ texts, h.Holds text := by
  induction texts with
  | nil => simp [withTexts]
  | cons text texts ih =>
    rw [List.forall_mem_cons]
    cases hf : h.findComputed? text with
    | some i =>
      have same : h.withText text = h := by rw [withText, hf]
      have holds : h.Holds text := by rw [Holds, hf]; rfl
      rw [withTexts, List.foldl_cons, same]
      exact ih.trans (and_iff_right holds).symm
    | none =>
      have longer : (h.withText text).width = h.width + 1 := by
        rw [withText, hf]
        exact width_push ..
      constructor
      · intro heq
        -- an added column is never dropped again
        have le := ((h.withText text).withTexts_before texts).width_le
        have same : (h.withText text).withTexts texts = h := heq
        rw [same] at le
        omega
      · intro holds
        rw [Holds, hf] at holds
        cases holds.1

end Header

/-! ## What sort keys add -/

namespace OrderKey

/-- The texts that must be in columns before the records are sorted by the key. -/
def texts (key : OrderKey) (h : Header) : List String :=
  match key.expr with
  | .literal (.integer _) => []
  | .column table name =>
    match h.find? table name with
    | .ok (some _) => []
    | _ => [key.text]
  | _ => key.windows.map (fun c => c.expr.text) ++ [key.text]

theorem texts_of_place {key : OrderKey} {place : Int64}
    (hkey : key.expr = .literal (.integer place)) (h : Header) : key.texts h = [] := by
  rw [texts, hkey]

theorem texts_of_column {key : OrderKey} {table : Option String} {name : String} {i? : Option Nat}
    {h : Header} (hkey : key.expr = .column table name) (hf : h.find? table name = .ok i?) :
    key.texts h = if i?.isSome then [] else [key.text] := by
  rw [texts, hkey]
  dsimp only
  rw [hf]
  cases i? <;> rfl

theorem texts_of_other {key : OrderKey} (hplace : ∀ place, key.expr ≠ .literal (.integer place))
    (hcolumn : ∀ table name, key.expr ≠ .column table name) (h : Header) :
    key.texts h = key.windows.map (fun c => c.expr.text) ++ [key.text] := by
  unfold texts
  split
  · rename_i place hkey
    exact absurd hkey (hplace place)
  · rename_i table name hkey
    exact absurd hkey (hcolumn table name)
  · rfl

/-- Whether the header has columns for the key and for the window calls in it. -/
def AnsweredBy (key : OrderKey) (h : Header) : Prop :=
  ∀ text ∈ key.texts h, h.Holds text

end OrderKey

/-- The header with columns for all sort keys. -/
def Header.withKeys (h : Header) (keys : List OrderKey) : Header :=
  keys.foldl (fun h key => h.withTexts (key.texts h)) h

theorem Header.withKeys_before (h : Header) (keys : List OrderKey) :
    h.Before (h.withKeys keys) := by
  induction keys generalizing h with
  | nil => exact List.prefix_refl _
  | cons key keys ih => exact (h.withTexts_before _).trans (ih _)

/-- Sort keys add nothing exactly if the header answers all of them. -/
theorem Header.withKeys_eq_iff (h : Header) (keys : List OrderKey) :
    h.withKeys keys = h ↔ ∀ key ∈ keys, key.AnsweredBy h := by
  induction keys with
  | nil => simp [withKeys]
  | cons key keys ih =>
    rw [List.forall_mem_cons]
    constructor
    · intro heq
      have rest := ((h.withTexts (key.texts h)).withKeys_before keys).width_le
      have first := (h.withTexts_before (key.texts h)).width_le
      have whole : (h.withTexts (key.texts h)).withKeys keys = h := heq
      rw [whole] at rest
      -- the widths between the two ends cannot differ
      have same := (h.withTexts_before (key.texts h)).eq_of_width (Nat.le_antisymm rest first)
      rw [same] at whole
      exact ⟨(h.withTexts_eq_iff _).mp same, ih.mp whole⟩
    · intro ⟨hkey, hkeys⟩
      have same := (h.withTexts_eq_iff _).mpr hkey
      rw [withKeys, List.foldl_cons, same]
      exact ih.mpr hkeys

theorem computedColumn_header {o : Operand} {i : Nat}
    (h : Stage.exec (Stage.computedColumn o env) v s = ((.ok i, w), t)) :
    w.header = v.header.withText o.text := by
  rw [Stage.exec_computedColumn] at h
  unfold Header.withText
  cases hf : v.header.findComputed? o.text with
  | some j =>
    rw [hf] at h
    cases h
    rfl
  | none =>
    rw [hf] at h
    dsimp only at h
    split at h
    · cases h
      rfl
    · cases h

theorem WindowCall.run_header {call : WindowCall} {u : Unit}
    (h : Stage.exec (call.run env) v s = ((.ok u, w), t)) :
    w.header = v.header.push (.computed call.expr.text) := by
  obtain ⟨rs, -, hspec⟩ := call.run_spec env v s
  rw [h] at hspec
  obtain ⟨values, -, rfl⟩ := hspec
  rfl

theorem runWindows_header {calls : List WindowCall} {u : Unit}
    (h : Stage.exec (runWindows calls env) v s = ((.ok u, w), t)) :
    w.header = v.header.withTexts (calls.map fun c => c.expr.text) := by
  induction calls generalizing v s with
  | nil =>
    cases h
    rfl
  | cons call calls ih =>
    obtain ⟨_, x, r, hx, h⟩ := Stage.exec_bind_eq_ok h
    rw [Stage.exec_bind, Stage.exec_view] at hx
    dsimp only [Stage.execThen] at hx
    -- a call that has a column already is not run
    have first : x.header = v.header.withText call.expr.text := by
      unfold Header.withText
      cases hf : v.header.findComputed? call.expr.text with
      | some i =>
        rw [hf] at hx
        cases hx
        rfl
      | none =>
        rw [hf] at hx
        exact WindowCall.run_header hx
    rw [List.map_cons, Header.withTexts, List.foldl_cons, ← first]
    exact ih h

theorem OrderKey.resolve_header {key : OrderKey} {i : Nat}
    (h : Stage.exec (key.resolve env) v s = ((.ok i, w), t)) :
    w.header = v.header.withTexts (key.texts v.header) := by
  unfold OrderKey.resolve at h
  split at h
  · rename_i place hkey
    rw [OrderKey.texts_of_place hkey]
    rw [Stage.exec_bind, Stage.exec_view] at h
    dsimp only [Stage.execThen] at h
    split at h <;> cases h
    rfl
  · rename_i table name hkey
    obtain ⟨i?, x, r, hx, hlast⟩ := Stage.exec_bind_eq_ok h
    obtain ⟨rfl, hf⟩ := Stage.columnIndex?_eq_ok hx
    rw [OrderKey.texts_of_column hkey hf]
    split at hlast
    · cases hlast
      rfl
    · exact computedColumn_header hlast
  · rename_i hplace hcolumn
    obtain ⟨_, x, r, hx, h⟩ := Stage.exec_bind_eq_ok h
    rw [computedColumn_header h, runWindows_header hx, OrderKey.texts_of_other hplace hcolumn,
      Header.withTexts, Header.withTexts, List.foldl_append]
    rfl

theorem orderBy_header {keys : List OrderKey} {u : Unit}
    (h : Stage.exec (orderBy keys env) v s = ((.ok u, w), t)) :
    w.header = v.header.withKeys keys ∧ w.selected = v.selected := by
  have resolved {x : View} {r : Scope} {indices : List Nat}
      (hx : Stage.exec (keys.mapM fun key => key.resolve env) v s = ((.ok indices, x), r)) :
      x.header = v.header.withKeys keys := by
    clear h
    induction keys generalizing v s indices with
    | nil =>
      cases hx
      rfl
    | cons key keys ih =>
      rw [List.mapM_cons] at hx
      obtain ⟨i, y, q, hy, hx⟩ := Stage.exec_bind_eq_ok hx
      obtain ⟨is, z, p, hz, hx⟩ := Stage.exec_bind_eq_ok hx
      cases hx
      rw [ih hz, OrderKey.resolve_header hy]
      rfl
  -- sort keys select nothing, whatever columns they add
  have grows : Stage.Grows (keys.mapM fun key => key.resolve env) :=
    .mapM fun key _ => key.resolve_grows env
  have grown := grows v s
  obtain ⟨indices, x, r, hx, h⟩ := Stage.exec_bind_eq_ok h
  rw [hx] at grown
  have header := resolved hx
  cases h
  exact ⟨header, grown.selected⟩

/-! ## What the last clauses do to the columns -/

theorem View.offset_header {o : Operand} (h : exec (v.offset o env) s = (.ok w, t)) :
    w.header = v.header ∧ w.selected = v.selected := by
  obtain ⟨value, _, -, h⟩ := exec_bind_eq_ok h
  split at h
  · cases h
    exact ⟨rfl, rfl⟩
  · cases h

theorem View.take_header (v : View) (count : Nat) (ties : Bool) :
    (v.take count ties).header = v.header ∧ (v.take count ties).selected = v.selected := by
  unfold View.take
  generalize (if ties then v.sortKeys.elim count fun keys => extendByTies keys count
    else count) = n
  dsimp only
  split <;> exact ⟨rfl, rfl⟩

theorem View.limit_header {clause : LimitClause} (h : exec (v.limit clause env) s = (.ok w, t)) :
    w.header = v.header ∧ w.selected = v.selected := by
  obtain ⟨value, _, -, h⟩ := exec_bind_eq_ok h
  dsimp only at h
  split at h <;> split at h
  · cases h
    exact v.take_header _ _
  · cases h
  · cases h
    exact v.take_header _ _
  · cases h

/-- The columns that are kept at the end: the selected ones, or all. -/
def View.keptColumns (selected : Option (List Nat)) (h : Header) : Header :=
  selected.elim h h.project

theorem View.fix_header (v : View) : v.fix.header = keptColumns v.selected v.header := by
  unfold fix keptColumns
  cases v.selected <;> rfl

/-- The last clauses add columns for sort keys, and then the selected columns are kept. -/
theorem View.finish_eq_fix {keys : List OrderKey} {offset : Option Operand}
    {limit : Option LimitClause} (h : exec (v.finish keys offset limit env) s = (.ok w, t)) :
    ∃ x : View, w = x.fix ∧ x.header = v.header.withKeys keys ∧ x.selected = v.selected := by
  obtain ⟨x, y, z, _, _, hx, hy, hz, rfl⟩ := View.finish_eq_ok h
  have sorted : x.header = v.header.withKeys keys ∧ x.selected = v.selected := by
    split at hx
    · rename_i hempty
      cases hx
      rw [List.isEmpty_iff.mp hempty]
      exact ⟨rfl, rfl⟩
    · exact orderBy_header (Stage.exec_runOn_eq_ok hx)
  have dropped : y.header = x.header ∧ y.selected = x.selected :=
    View.clause_keeps (P := fun y => y.header = x.header ∧ y.selected = x.selected) ⟨rfl, rfl⟩
      (fun o s t w h => View.offset_header h) hy
  have taken : z.header = y.header ∧ z.selected = y.selected :=
    View.clause_keeps (P := fun z => z.header = y.header ∧ z.selected = y.selected) ⟨rfl, rfl⟩
      (fun c s t w h => View.limit_header h) hz
  exact ⟨z, rfl, taken.1.trans (dropped.1.trans sorted.1), taken.2.trans (dropped.2.trans sorted.2)⟩

theorem View.finish_header {keys : List OrderKey} {offset : Option Operand}
    {limit : Option LimitClause} (h : exec (v.finish keys offset limit env) s = (.ok w, t)) :
    w.header = keptColumns v.selected (v.header.withKeys keys) := by
  obtain ⟨x, rfl, header, selected⟩ := View.finish_eq_fix h
  rw [View.fix_header, header, selected]

theorem View.finish_unselected {keys : List OrderKey} {offset : Option Operand}
    {limit : Option LimitClause} (h : exec (v.finish keys offset limit env) s = (.ok w, t)) :
    w.selected = none := by
  obtain ⟨x, rfl, -, -⟩ := View.finish_eq_fix h
  exact x.fix_selected

/-! ## Bodies -/

/-- Whether a body is a select list with its clauses. -/
def Body.isSelect : Body → Bool
  | .select .. => true
  | _ => false

theorem View.distinct_selected {indices : List Nat} (hs : v.selected = some indices)
    (hi : ∀ i ∈ indices, i < v.header.width) (clock : Calendar.Clock) :
    ∃ kept, (v.distinct clock).selected = some kept ∧
      ∀ i ∈ kept, i < (v.distinct clock).header.width := by
  unfold View.distinct
  rw [hs]
  refine ⟨_, rfl, fun i him => ?_⟩
  rw [Option.getD_some, Header.width_project hi]
  exact List.mem_range.mp him

theorem View.selectFrom_selected {condition having : Option Operand} {groups : List Operand}
    {items : List SelectItem} {distinct : Bool}
    (h : exec (v.selectFrom condition groups having items distinct env) s = (.ok w, t)) :
    ∃ indices, w.selected = some indices ∧ ∀ i ∈ indices, i < w.header.width := by
  obtain ⟨x, y, z, u, _, _, _, -, -, -, hu, rfl⟩ := View.selectFrom_eq_ok h
  obtain ⟨-, indices, hs, valid⟩ := select_selected (Stage.exec_runOn_eq_ok hu)
  split
  · exact View.distinct_selected hs valid _
  · exact ⟨indices, hs, valid⟩

/-- Only a select list leaves a selection to its sort keys. -/
theorem Body.run_selected {body : Body} (h : exec (body.run env) s = (.ok v, t)) :
    (body.isSelect = true ∧
      ∃ indices, v.selected = some indices ∧ ∀ i ∈ indices, i < v.header.width) ∨
    (body.isSelect = false ∧ v.selected = none) := by
  cases body with
  | select distinct fields sources condition groups having =>
    rw [Body.run] at h
    obtain ⟨x, _, -, h⟩ := exec_bind_eq_ok h
    exact .inl ⟨rfl, View.selectFrom_selected h⟩
  | combine op all left right =>
    rw [Body.run] at h
    obtain ⟨a, _, -, h⟩ := exec_bind_eq_ok h
    obtain ⟨b, _, -, h⟩ := exec_bind_eq_ok h
    have hc := (Prod.mk.inj h).1
    unfold View.combine at hc
    split at hc
    · cases hc
    · cases hc
      exact .inr ⟨rfl, View.fix_selected a⟩
  | nested q =>
    cases q
    rw [Body.run, Query.run] at h
    obtain ⟨_, _, -, h⟩ := exec_bind_eq_ok h
    obtain ⟨x, _, -, h⟩ := exec_bind_eq_ok h
    exact .inr ⟨rfl, View.finish_unselected h⟩

/-! ## Queries -/

/-- The sort keys and limits of a query leave its columns alone exactly if its body is a select
list, or if the result without them has a column for every sort key. Otherwise the columns that are
computed for sort keys stay in the result. -/
theorem sort_keys_keep_columns_iff {recursive : Bool} {tables : List InlineDef} {body : Body}
    {order : List OrderItem} {offset : Option Expr} {limit : Limit} {u : Scope}
    (hv : exec ((Query.mk recursive tables body order offset limit).run env) s = (.ok v, t))
    (hw : exec ((Query.mk recursive tables body [] none .all).run env) s = (.ok w, u)) :
    (v.header.width = w.header.width ∧ v.labels = w.labels) ↔
      body.isSelect = true ∨ ∀ key ∈ orderKeys order, key.AnsweredBy w.header := by
  rw [Query.run] at hv hw
  obtain ⟨after, r, ht, hv⟩ := exec_bind_eq_ok hv
  rw [exec_bind_ok ht] at hw
  obtain ⟨x, p, hb, hv⟩ := exec_bind_eq_ok hv
  rw [exec_bind_ok hb] at hw
  have ordered := View.finish_header hv
  have plain : w.header = View.keptColumns x.selected x.header := View.finish_header hw
  have before := x.header.withKeys_before (orderKeys order)
  obtain ⟨hselect, indices, hs, valid⟩ | ⟨hselect, hs⟩ := Body.run_selected hb
  · -- the selection drops the columns of the sort keys
    have same : v.header = w.header := by
      rw [ordered, plain, hs]
      exact before.project valid
    unfold View.labels
    rw [same]
    exact ⟨fun _ => .inl hselect, fun _ => ⟨rfl, rfl⟩⟩
  · have hordered : v.header = w.header.withKeys (orderKeys order) := by
      rw [ordered, plain, hs]
      rfl
    -- nothing is selected, so the columns of the sort keys are shown unless there are none
    rw [← Header.withKeys_eq_iff, ← hordered, hselect]
    constructor
    · rintro ⟨hwidth, -⟩
      have before := w.header.withKeys_before (orderKeys order)
      rw [← hordered] at before
      exact .inr (before.eq_of_width hwidth)
    · intro h
      have same : v.header = w.header := h.resolve_left Bool.false_ne_true
      unfold View.labels
      rw [same]
      exact ⟨rfl, rfl⟩

/-- `(SELECT a FROM t) ORDER BY a + 1` shows its sort key as a second column. -/
theorem sort_keys_keep_columns_iff_nested :
    let key : Expr := .arith .add (.column none "a") (.literal (.integer 1))
    let inner : Query := .mk false [] (.select false [.mk (.column none "a") none]
      [.named "t" none] none [] none) [] none .all
    let table : StoredTable := ⟨["a"], [[.integer 1]]⟩
    let env : Env := { settings := { catalog := { tables := ⟨[("T", table)]⟩ } } }
    ∃ v w t u,
      exec ((Query.mk false [] (.nested inner) [.mk key none none] none .all).run env) {}
        = (.ok v, t) ∧
      exec ((Query.mk false [] (.nested inner) [] none .all).run env) {} = (.ok w, u) ∧
      v.labels = ["a", "a + 1"] ∧ w.labels = ["a"] ∧
      ¬ ∀ k ∈ orderKeys [.mk key none none], k.AnsweredBy w.header := by
  intro key inner table env
  have ordered : (exec ((Query.mk false [] (.nested inner) [.mk key none none] none .all).run env)
      {}).1.toOption.map View.labels = some ["a", "a + 1"] := by decide +kernel
  have plain : (exec ((Query.mk false [] (.nested inner) [] none .all).run env)
      {}).1.toOption.map View.labels = some ["a"] := by decide +kernel
  obtain ⟨v, t, hv, labelsV⟩ := eq_ok_of_toOption_map ordered
  obtain ⟨w, u, hw, labelsW⟩ := eq_ok_of_toOption_map plain
  refine ⟨v, w, t, u, hv, hw, labelsV, labelsW, fun answered => ?_⟩
  have same := (sort_keys_keep_columns_iff hv hw).mpr (.inr answered)
  rw [labelsV, labelsW] at same
  cases same.2

end TableQuery
