import TableQuery.Proofs.Evaluation.Order
import TableQuery.Proofs.Evaluation.WellFormed

/-!
# How many rows the last clauses give

A select list has as many rows as the view that it starts from, or one if it groups the view as a
whole. Sort keys never change the number of rows, and `DISTINCT` leaves a single row alone.
-/

namespace TableQuery

open Eval

variable {env : Env} {s t : Scope} {v w : View}

/-! ## Stages -/

theorem View.Change.length_records (h : v.Change w) : w.records.length = v.records.length := by
  cases h with
  | reorder perm => exact perm.length_eq
  | @push text values missing length =>
    show (v.records.zipWith _ values).length = _
    rw [List.length_zipWith, length, Nat.min_self]
  | addAlias => rfl

theorem View.Grows.length_records (h : v.Grows w) : w.records.length = v.records.length := by
  induction h with
  | refl => rfl
  | tail _ change ih => rw [change.length_records, ih]

/-- A stage that only grows the view keeps the number of its records. -/
theorem Stage.Grows.length_records {α : Type} {x : Stage α} {r : Except QueryError α}
    (grows : x.Grows) (h : Stage.exec x v s = ((r, w), t)) :
    w.records.length = v.records.length := by
  have grown := View.Grows.length_records (grows v s)
  rwa [h] at grown

/-! ## Select lists -/

/-- A select list over groups gives one row for each. -/
theorem select_length_of_grouped {items : List SelectItem} {u : Unit} (grouped : v.grouped = true)
    (h : Stage.exec (select items env) v s = ((.ok u, w), t)) :
    w.records.length = v.records.length := by
  have kept : v.groupFor items = v := by rw [View.groupFor, grouped]; rfl
  rw [select, Stage.exec_bind, Stage.exec_modifyView] at h
  dsimp only [Stage.execThen] at h
  rw [kept] at h
  obtain ⟨indices, x, r, hx, h⟩ := Stage.exec_bind_eq_ok h
  have grows := (resolveItems_picks items env).grows
  suffices length : x.records.length = v.records.length by
    cases h
    exact length
  rw [resolveOrGroup, Stage.exec_bind, Stage.exec_view] at hx
  dsimp only [Stage.execThen] at hx
  rw [Stage.exec_tryCatch] at hx
  rcases hr : Stage.exec (resolveItems items env) v s with ⟨⟨e | is, u⟩, r⟩ <;> rw [hr] at hx
  · -- there is no second try, as the view is grouped
    have grown := grows v s
    rw [hr] at grown
    dsimp only at hx
    rw [Stage.exec_bind, Stage.exec_view] at hx
    dsimp only [Stage.execThen] at hx
    rw [grown.grouped, grouped, Bool.not_true, Bool.and_false] at hx
    cases hx
  · cases hx
    exact grows.length_records hr

/-- A select list that aggregates gives one row for a view that is not grouped. -/
theorem select_length_of_aggregates {items : List SelectItem} {u : Unit}
    (ungrouped : v.grouped = false) (h : aggregates items = true)
    (hs : Stage.exec (select items env) v s = ((.ok u, w), t)) : w.records.length = 1 := by
  have grouped : v.groupFor items = v.groupAll := by rw [View.groupFor, ungrouped, h]; rfl
  have again : v.groupAll.groupFor items = v.groupAll := rfl
  have same : Stage.exec (select items env) v s = Stage.exec (select items env) v.groupAll s := by
    rw [select, Stage.exec_bind, Stage.exec_bind, Stage.exec_modifyView, Stage.exec_modifyView,
      grouped, again]
  rw [same] at hs
  exact select_length_of_grouped rfl hs

/-! ## Views without rows -/

theorem View.bindings_of_empty (h : v.records = []) : v.bindings = [] := by
  rw [View.bindings, h]
  rfl

namespace Stage

variable {α β : Type}

/-- The stage succeeds on every view without records and adds none. -/
def PassesEmpty (x : Stage α) : Prop :=
  ∀ (v : View) s, v.records = [] → ∃ a w, exec x v s = ((.ok a, w), s) ∧ w.records = []

theorem PassesEmpty.pure (a : α) : PassesEmpty (pure a) :=
  fun v _ empty => ⟨a, v, rfl, empty⟩

theorem PassesEmpty.bind {x : Stage α} {f : α → Stage β} (hx : PassesEmpty x)
    (hf : ∀ a, PassesEmpty (f a)) : PassesEmpty (x >>= f) := by
  intro v s empty
  obtain ⟨a, u, hu, still⟩ := hx v s empty
  obtain ⟨b, w, hw, last⟩ := hf a u s still
  refine ⟨b, w, ?_, last⟩
  rw [exec_bind, hu]
  exact hw

theorem PassesEmpty.mapM {f : α → Stage β} {as : List α} (h : ∀ a ∈ as, PassesEmpty (f a)) :
    PassesEmpty (as.mapM f) := by
  induction as with
  | nil => exact .pure []
  | cons a as ih =>
    rw [List.mapM_cons]
    refine (h a (by simp)).bind fun b => ?_
    exact (ih fun c hc => h c (by simp [hc])).bind fun bs => .pure (b :: bs)

theorem computedColumn_passesEmpty (o : Operand) (env : Env) :
    PassesEmpty (computedColumn o env) := by
  intro v s empty
  have unevaluated : Eval.exec (o.evalEach env v.bindings) s = (.ok [], s) := by
    rw [View.bindings_of_empty empty]
    rfl
  rw [exec_computedColumn]
  cases v.header.findComputed? o.text with
  | some i => exact ⟨i, v, rfl, empty⟩
  | none =>
    dsimp only
    rw [unevaluated]
    refine ⟨_, _, rfl, ?_⟩
    rw [View.pushColumn, empty]
    rfl

theorem addAlias_passesEmpty (i : Nat) (aliasName : Option String) :
    PassesEmpty (addAlias i aliasName) := by
  cases aliasName with
  | none => exact .pure ()
  | some name => exact fun v s empty => ⟨(), _, rfl, empty⟩

end Stage

/-- The field is evaluated for each row: it neither names columns nor calls windows. -/
def SelectItem.isEvaluated (item : SelectItem) : Bool :=
  item.windows.isEmpty && match item.expr with
    | .column _ _ | .allColumns | .tableColumns _ => false
    | _ => true

/-- Without rows there is nothing for which a field could fail. -/
theorem SelectItem.resolve_passesEmpty {item : SelectItem} (h : item.isEvaluated = true)
    (env : Env) : Stage.PassesEmpty (item.resolve env) := by
  have evaluated := (Bool.and_eq_true_iff.mp h).2
  unfold SelectItem.resolve
  split
  · rename_i all
    rw [all] at evaluated
    cases evaluated
  · rename_i table columns
    rw [columns] at evaluated
    cases evaluated
  · rename_i table name column
    rw [column] at evaluated
    cases evaluated
  · refine (Stage.computedColumn_passesEmpty _ env).bind fun i => ?_
    exact (Stage.addAlias_passesEmpty i _).bind fun _ => .pure [i]

theorem resolveItems_passesEmpty {items : List SelectItem}
    (h : ∀ item ∈ items, item.isEvaluated = true) (env : Env) :
    Stage.PassesEmpty (resolveItems items env) := by
  have windowless : items.flatMap SelectItem.windows = [] := by
    refine List.flatMap_eq_nil_iff.mpr fun item hitem => ?_
    exact List.isEmpty_iff.mp (Bool.and_eq_true_iff.mp (h item hitem)).1
  have windows : Stage.PassesEmpty (runWindows (items.flatMap SelectItem.windows) env) := by
    rw [windowless]
    exact .pure ()
  refine windows.bind fun _ => ?_
  exact (Stage.PassesEmpty.mapM fun item hitem => item.resolve_passesEmpty (h item hitem) env).bind
    fun is => .pure is.flatten

/-- A select list that does not aggregate gives no rows for a view without rows. -/
theorem select_records_of_empty {items : List SelectItem} {u : Unit}
    (h : ∀ item ∈ items, item.isEvaluated = true) (plain : aggregates items = false)
    (empty : v.records = []) (hs : Stage.exec (select items env) v s = ((.ok u, w), t)) :
    w.records = [] := by
  have kept : v.groupFor items = v := by rw [View.groupFor, plain, Bool.and_false]; rfl
  obtain ⟨is, x, hx, still⟩ := resolveItems_passesEmpty h env v s empty
  have resolved : Stage.exec (resolveOrGroup items env) v s = ((.ok is, x), s) := by
    rw [resolveOrGroup, Stage.exec_bind, Stage.exec_view]
    dsimp only [Stage.execThen]
    rw [Stage.exec_tryCatch, hx]
  rw [select, Stage.exec_bind, Stage.exec_modifyView] at hs
  dsimp only [Stage.execThen] at hs
  rw [kept, Stage.exec_bind, resolved] at hs
  cases hs
  exact still

/-! ## After the select list -/

/-- A single row is never a duplicate. -/
theorem View.distinct_length (h : v.records.length ≤ 1) (clock : Calendar.Clock) :
    (v.distinct clock).records.length = v.records.length := by
  obtain ⟨header, records, grouped, selected, sortKeys, dropped⟩ := v
  cases records with
  | nil => rfl
  | cons r rs =>
    cases rs with
    | nil => rfl
    | cons _ _ =>
      simp only [List.length_cons] at h
      omega

theorem orderBy_length {keys : List OrderKey} {u : Unit}
    (h : Stage.exec (orderBy keys env) v s = ((.ok u, w), t)) :
    w.records.length = v.records.length := by
  have grows : Stage.Grows (keys.mapM fun key => key.resolve env) :=
    .mapM fun key _ => key.resolve_grows env
  obtain ⟨indices, x, r, hx, h⟩ := Stage.exec_bind_eq_ok h
  have sorted := x.sortBy_records_perm env.clock (keyOrders (keys.map OrderKey.toSortOperand))
    indices
  cases h
  exact sorted.length_eq.trans (grows.length_records hx)

theorem View.fix_length (v : View) : v.fix.records.length = v.records.length := by
  unfold fix
  split <;> exact List.length_map _

/-- Sort keys alone keep the number of rows. -/
theorem View.finish_length {keys : List OrderKey}
    (h : exec (v.finish keys none none env) s = (.ok w, t)) :
    w.records.length = v.records.length := by
  obtain ⟨x, y, z, _, _, hx, hy, hz, rfl⟩ := View.finish_eq_ok h
  cases hy
  cases hz
  rw [View.fix_length]
  split at hx
  · cases hx
    rfl
  · exact orderBy_length (Stage.exec_runOn_eq_ok hx)

end TableQuery
