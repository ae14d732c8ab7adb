import TableQuery.Proofs.Evaluation.Conditions
import TableQuery.Proofs.Evaluation.Growth

/-!
# Clauses keep views well-formed

Every clause that succeeds gives a rectangular view, and the select list leaves a selection of
columns that exist.
-/

namespace TableQuery

open Eval

variable {v w : View} {env : Env} {s t : Scope}

/-! ## Conditions and groups -/

/-- A condition keeps some of the records, in their order. -/
theorem View.keepWhere_records {condition : Operand}
    (h : exec (v.keepWhere condition env) s = (.ok w, t)) :
    w.records.Sublist v.records ∧ w.header = v.header ∧ w.grouped = v.grouped := by
  obtain ⟨flags, -, length, rfl⟩ := View.keepWhere_eq_ok h
  refine ⟨?_, rfl, rfl⟩
  have kept := (List.filter_sublist (p := Prod.snd) (l := v.records.zip flags)).map Prod.fst
  rwa [List.map_fst_zip (Nat.le_of_eq length.symm)] at kept

theorem View.keepWhere_rectangular (hv : v.Rectangular) {condition : Operand}
    (h : exec (v.keepWhere condition env) s = (.ok w, t)) : w.Rectangular := by
  obtain ⟨kept, header, -⟩ := View.keepWhere_records h
  exact View.rectangular_of_subset hv kept.subset rfl (congrArg Header.width header)

theorem View.having_rectangular (hv : v.Rectangular) {condition : Operand}
    (h : exec (v.having condition env) s = (.ok w, t)) : w.Rectangular := by
  rw [View.having, exec_tryCatch] at h
  rcases hk : exec (v.keepWhere condition env) s with ⟨e | u, r⟩ <;> rw [hk] at h
  · dsimp only at h
    split at h
    · exact View.keepWhere_rectangular v.groupAll_rectangular h
    · cases h
  · cases h
    exact View.keepWhere_rectangular hv hk

/-- Groups have one cell for each column, whatever their members have. -/
theorem View.groupBy_rectangular {items : List Operand}
    (h : exec (v.groupBy items env) s = (.ok w, t)) : w.Rectangular := by
  obtain ⟨keys, _, -, h⟩ := exec_bind_eq_ok h
  obtain ⟨⟨header, owns⟩, _, -, h⟩ := exec_bind_eq_ok h
  cases h
  intro r hr
  obtain ⟨indices, -, rfl⟩ := List.mem_map.mp hr
  exact Record.width_group _ _

/-! ## The select list -/

theorem View.groupFor_rectangular (hv : v.Rectangular) (items : List SelectItem) :
    (v.groupFor items).Rectangular := by
  unfold View.groupFor
  split
  · exact v.groupAll_rectangular
  · exact hv

/-- What resolving the select list leaves, also in its second try, are columns that exist. -/
theorem resolveOrGroup_picks {items : List SelectItem} {indices : List Nat}
    (h : Stage.exec (resolveOrGroup items env) v s = ((.ok indices, w), t)) :
    (v.Rectangular → w.Rectangular) ∧ ∀ i ∈ indices, i < w.header.width := by
  have picks (u : View) (r : Scope)
      (h : Stage.exec (resolveItems items env) u r = ((.ok indices, w), t)) :
      (u.Rectangular → w.Rectangular) ∧ ∀ i ∈ indices, i < w.header.width := by
    have grown := (resolveItems_picks items env).grows u r
    rw [h] at grown
    exact ⟨grown.rectangular,
      (resolveItems_picks items env).valid u r w t indices (fun i hi => by cases hi) h⟩
  rw [resolveOrGroup, Stage.exec_bind, Stage.exec_view] at h
  dsimp only [Stage.execThen] at h
  rw [Stage.exec_tryCatch] at h
  rcases hr : Stage.exec (resolveItems items env) v s with ⟨⟨e | is, u⟩, r⟩ <;> rw [hr] at h
  · -- the second try starts from a view that is rectangular whatever the first one left
    dsimp only at h
    rw [Stage.exec_bind, Stage.exec_view] at h
    dsimp only [Stage.execThen] at h
    split at h
    · rw [Stage.exec_bind, Stage.exec_modifyView] at h
      obtain ⟨rectangular, valid⟩ := picks _ _ h
      exact ⟨fun _ => rectangular (View.groupAll_rectangular _), valid⟩
    · cases h
  · cases h
    exact picks v s hr

/-- A select list leaves a selection of columns that exist. -/
theorem select_selected {items : List SelectItem} {u : Unit}
    (h : Stage.exec (select items env) v s = ((.ok u, w), t)) :
    (v.Rectangular → w.Rectangular) ∧
      ∃ indices, w.selected = some indices ∧ ∀ i ∈ indices, i < w.header.width := by
  rw [select, Stage.exec_bind, Stage.exec_modifyView] at h
  obtain ⟨indices, x, r, hx, h⟩ := Stage.exec_bind_eq_ok h
  obtain ⟨rectangular, valid⟩ := resolveOrGroup_picks hx
  cases h
  exact ⟨fun hv => rectangular (View.groupFor_rectangular hv items), indices, rfl, valid⟩

theorem select_wellFormed (hv : v.Rectangular) {items : List SelectItem} {u : Unit}
    (h : Stage.exec (select items env) v s = ((.ok u, w), t)) : w.WellFormed := by
  obtain ⟨rectangular, indices, hs, valid⟩ := select_selected h
  refine ⟨rectangular hv, fun is his => ?_⟩
  rw [hs] at his
  cases his
  exact valid

/-! ## Order and slices -/

theorem View.WellFormed.sortBy (hv : v.WellFormed) (clock : Calendar.Clock)
    (orders : List KeyOrder) (indices : List Nat) : (v.sortBy clock orders indices).WellFormed := by
  refine hv.of_subset (fun r hr => ?_) rfl rfl
  have perm := (stableSort_perm (fun a b => SortKey.tupleLess orders a.1 b.1)
    (v.records.map fun r => (SortKey.ofValues clock (indices.map r.value), r))).map Prod.snd
  have mem := perm.subset hr
  rw [List.map_map] at mem
  obtain ⟨q, hq, rfl⟩ := List.mem_map.mp mem
  exact hq

theorem orderBy_wellFormed (hv : v.WellFormed) {keys : List OrderKey} {u : Unit}
    (h : Stage.exec (orderBy keys env) v s = ((.ok u, w), t)) : w.WellFormed := by
  have grows : Stage.Grows (keys.mapM fun key => key.resolve env) :=
    .mapM fun key _ => key.resolve_grows env
  have grown := grows v s
  obtain ⟨indices, x, r, hx, h⟩ := Stage.exec_bind_eq_ok h
  rw [hx] at grown
  cases h
  exact (grown.wellFormed hv).sortBy _ _ _

theorem View.offset_wellFormed (hv : v.WellFormed) {o : Operand}
    (h : exec (v.offset o env) s = (.ok w, t)) : w.WellFormed := by
  obtain ⟨value, _, -, h⟩ := exec_bind_eq_ok h
  split at h
  · cases h
    exact hv.drop _
  · cases h

theorem View.limit_wellFormed (hv : v.WellFormed) {clause : LimitClause}
    (h : exec (v.limit clause env) s = (.ok w, t)) : w.WellFormed := by
  obtain ⟨value, _, -, h⟩ := exec_bind_eq_ok h
  dsimp only at h
  split at h <;> split at h
  · cases h
    exact hv.take _ _
  · cases h
  · cases h
    exact hv.take _ _
  · cases h

/-! ## All clauses -/

/-- A property that a clause keeps holds of the view after it, if there is one or not. -/
theorem View.clause_keeps {α : Type} {P : View → Prop} (hv : P v) {part : Option α}
    {apply : α → Eval View} (hk : ∀ a s t w, exec (apply a) s = (.ok w, t) → P w)
    (h : exec (v.clause part apply) s = (.ok w, t)) : P w := by
  cases part with
  | none =>
    cases h
    exact hv
  | some a => exact hk a s t w h

/-- A `SELECT` that succeeds has run its clauses one after the other. -/
theorem View.selectFrom_eq_ok {condition having : Option Operand} {groups : List Operand}
    {items : List SelectItem} {distinct : Bool}
    (h : exec (v.selectFrom condition groups having items distinct env) s = (.ok w, t)) :
    ∃ (x y z u : View) (s₁ s₂ s₃ : Scope),
      exec (v.clause condition fun c => v.keepWhere c env) s = (.ok x, s₁) ∧
      exec (if groups.isEmpty then pure x else x.groupBy groups env) s₁ = (.ok y, s₂) ∧
      exec (y.clause having fun c => y.having c env) s₂ = (.ok z, s₃) ∧
      exec ((select items env).runOn z) s₃ = (.ok u, t) ∧
      w = if distinct then u.distinct env.clock else u := by
  have rest (y : View) (s₂ : Scope)
      (h : exec (do
        let v ← y.clause having fun c => y.having c env
        let v ← (select items env).runOn v
        return if distinct then v.distinct env.clock else v) s₂ = (.ok w, t)) :
      ∃ (z u : View) (s₃ : Scope),
        exec (y.clause having fun c => y.having c env) s₂ = (.ok z, s₃) ∧
        exec ((select items env).runOn z) s₃ = (.ok u, t) ∧
        w = if distinct then u.distinct env.clock else u := by
    obtain ⟨z, s₃, hz, h⟩ := exec_bind_eq_ok h
    obtain ⟨u, _, hu, h⟩ := exec_bind_eq_ok h
    cases h
    exact ⟨z, u, s₃, hz, hu, rfl⟩
  obtain ⟨x, s₁, hx, h⟩ := exec_bind_eq_ok h
  dsimp only at h
  split at h
  · rename_i hempty
    obtain ⟨z, u, s₃, hz, hu, hw⟩ := rest x s₁ h
    exact ⟨x, x, z, u, s₁, s₁, s₃, hx, by rw [if_pos hempty]; rfl, hz, hu, hw⟩
  · rename_i hgroups
    obtain ⟨y, s₂, hy, h⟩ := exec_bind_eq_ok h
    obtain ⟨z, u, s₃, hz, hu, hw⟩ := rest y s₂ h
    exact ⟨x, y, z, u, s₁, s₂, s₃, hx, by rwa [if_neg hgroups], hz, hu, hw⟩

theorem View.selectFrom_wellFormed (hv : v.Rectangular) {condition having : Option Operand}
    {groups : List Operand} {items : List SelectItem} {distinct : Bool}
    (h : exec (v.selectFrom condition groups having items distinct env) s = (.ok w, t)) :
    w.WellFormed := by
  obtain ⟨x, y, z, u, _, _, _, hx, hy, hz, hu, rfl⟩ := View.selectFrom_eq_ok h
  have hx : x.Rectangular :=
    View.clause_keeps hv (fun c s t w h => View.keepWhere_rectangular hv h) hx
  have hy : y.Rectangular := by
    split at hy
    · cases hy
      exact hx
    · exact View.groupBy_rectangular hy
  have hz : z.Rectangular :=
    View.clause_keeps hy (fun c s t w h => View.having_rectangular hy h) hz
  have selected := select_wellFormed hz (Stage.exec_runOn_eq_ok hu)
  split
  · exact selected.distinct _
  · exact selected

/-- The last clauses of a query that succeeds have run one after the other. -/
theorem View.finish_eq_ok {keys : List OrderKey} {offset : Option Operand}
    {limit : Option LimitClause} (h : exec (v.finish keys offset limit env) s = (.ok w, t)) :
    ∃ (x y z : View) (s₁ s₂ : Scope),
      exec (if keys.isEmpty then pure v else (orderBy keys env).runOn v) s = (.ok x, s₁) ∧
      exec (x.clause offset fun o => x.offset o env) s₁ = (.ok y, s₂) ∧
      exec (y.clause limit fun c => y.limit c env) s₂ = (.ok z, t) ∧
      w = z.fix := by
  have rest (x : View) (s₁ : Scope)
      (h : exec (do
        let v ← x.clause offset fun o => x.offset o env
        let v ← v.clause limit fun c => v.limit c env
        return v.fix) s₁ = (.ok w, t)) :
      ∃ (y z : View) (s₂ : Scope),
        exec (x.clause offset fun o => x.offset o env) s₁ = (.ok y, s₂) ∧
        exec (y.clause limit fun c => y.limit c env) s₂ = (.ok z, t) ∧
        w = z.fix := by
    obtain ⟨y, s₂, hy, h⟩ := exec_bind_eq_ok h
    obtain ⟨z, _, hz, h⟩ := exec_bind_eq_ok h
    cases h
    exact ⟨y, z, s₂, hy, hz, rfl⟩
  unfold View.finish at h
  dsimp only at h
  split at h
  · rename_i hempty
    obtain ⟨y, z, s₂, hy, hz, hw⟩ := rest v s h
    exact ⟨v, y, z, s, s₂, by rw [if_pos hempty]; rfl, hy, hz, hw⟩
  · rename_i hkeys
    obtain ⟨x, s₁, hx, h⟩ := exec_bind_eq_ok h
    obtain ⟨y, z, s₂, hy, hz, hw⟩ := rest x s₁ h
    exact ⟨x, y, z, s₁, s₂, by rwa [if_neg hkeys], hy, hz, hw⟩

theorem View.finish_flat (hv : v.WellFormed) {keys : List OrderKey} {offset : Option Operand}
    {limit : Option LimitClause} (h : exec (v.finish keys offset limit env) s = (.ok w, t)) :
    w.Flat := by
  obtain ⟨x, y, z, _, _, hx, hy, hz, rfl⟩ := View.finish_eq_ok h
  have hx : x.WellFormed := by
    split at hx
    · cases hx
      exact hv
    · exact orderBy_wellFormed hv (Stage.exec_runOn_eq_ok hx)
  have hy : y.WellFormed :=
    View.clause_keeps hx (fun o s t w h => View.offset_wellFormed hx h) hy
  have hz : z.WellFormed :=
    View.clause_keeps hy (fun c s t w h => View.limit_wellFormed hy h) hz
  exact hz.fix_flat

end TableQuery
