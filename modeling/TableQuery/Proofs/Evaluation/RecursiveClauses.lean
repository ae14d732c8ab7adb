import TableQuery.Proofs.Evaluation.Recursion
import TableQuery.Proofs.Evaluation.RowCounts
import TableQuery.Proofs.Evaluation.SortColumns
import TableQuery.Proofs.Table.Members

/-!
# Clauses around a recursive union

The query of a definition may have clauses around its union: tables of its own, sort keys, an offset
and a limit. A recursive table is taken apart into the two sides of the union, and nothing else of
its query is looked at. So the tables are unknown to both sides, and the rows are neither sorted nor
cut. What is missing is seen by comparing with what the clauses would make of the rows.
-/

namespace TableQuery

open Calendar Eval

variable {v w : View} {env : Env} {s t : Scope}

/-! ## Rows of single values -/

/-- A record with one value in each cell. -/
def Record.Single (r : Record) : Prop :=
  ∀ c ∈ r.cells, c.values.length = 1

theorem Record.Single.collapse_eq {r : Record} (h : r.Single) : r.collapse = r :=
  congrArg Record.mk ((List.map_congr_left fun c hc => Record.ofValue_value (h c hc)).trans
    (List.map_id _))

theorem Record.Single.push {r : Record} (h : r.Single) (value : Value) :
    (r.push (Cell.ofValue value)).Single := by
  intro c hc
  rcases List.mem_append.mp hc with hc | hc
  · exact h c hc
  · rw [List.mem_singleton.mp hc]
    rfl

namespace View

/-- The records have one value in each cell. -/
def Single (v : View) : Prop :=
  ∀ r ∈ v.records, r.Single

theorem fix_single (v : View) : v.fix.Single := by
  intro r hr
  unfold fix at hr
  split at hr
  all_goals
    obtain ⟨q, -, rfl⟩ := List.mem_map.mp hr
    exact collapse_single _

/-- Nothing is lost when records of single values are finished. -/
theorem Single.fix_records (h : v.Single) (hs : v.selected = none) : v.fix.records = v.records := by
  unfold fix
  rw [hs]
  exact (List.map_congr_left fun r hr => (h r hr).collapse_eq).trans (List.map_id _)

theorem Change.single (h : v.Change w) (hv : v.Single) : w.Single := by
  cases h with
  | reorder perm => exact fun r hr => hv r (perm.subset hr)
  | addAlias => exact hv
  | push =>
    intro r hr
    obtain ⟨i, hi, rfl⟩ := List.mem_iff_getElem.mp hr
    simp only [pushColumn, List.getElem_zipWith]
    exact (hv _ (List.getElem_mem _)).push _

theorem Grows.single (h : v.Grows w) (hv : v.Single) : w.Single := by
  induction h with
  | refl => exact hv
  | tail _ change ih => exact change.single ih

/-! ## What the last clauses keep -/

/-- The view with its records sorted, if there are sort keys. -/
def sorted (v : View) (keys : List OrderKey) (env : Env) : Eval View :=
  if keys.isEmpty then pure v else (orderBy keys env).runOn v

theorem sorted_single {keys : List OrderKey} (hv : v.Single)
    (h : exec (v.sorted keys env) s = (.ok w, t)) : w.Single := by
  unfold sorted at h
  split at h
  · cases h
    exact hv
  · have grows : Stage.Grows (keys.mapM fun key => key.resolve env) :=
      .mapM fun key _ => key.resolve_grows env
    have grown := grows v s
    obtain ⟨indices, x, r, hx, h⟩ := Stage.exec_bind_eq_ok (Stage.exec_runOn_eq_ok h)
    rw [hx] at grown
    cases h
    exact fun r hr => grown.single hv r ((x.sortBy_records_perm _ _ _).subset hr)

theorem sorted_length {keys : List OrderKey} (h : exec (v.sorted keys env) s = (.ok w, t)) :
    w.records.length = v.records.length := by
  unfold sorted at h
  split at h
  · cases h
    rfl
  · exact orderBy_length (Stage.exec_runOn_eq_ok h)

theorem offset_sublist {o : Operand} (h : exec (v.offset o env) s = (.ok w, t)) :
    w.records.Sublist v.records := by
  obtain ⟨value, _, -, h⟩ := exec_bind_eq_ok h
  split at h
  · cases h
    exact List.drop_sublist _ _
  · cases h

theorem take_sublist (v : View) (count : Nat) (ties : Bool) :
    (v.take count ties).records.Sublist v.records := by
  unfold take
  generalize (if ties then v.sortKeys.elim count fun keys => extendByTies keys count
    else count) = n
  dsimp only
  split
  · exact List.take_sublist _ _
  · exact List.Sublist.refl _

theorem limit_sublist {clause : LimitClause} (h : exec (v.limit clause env) s = (.ok w, t)) :
    w.records.Sublist v.records := by
  obtain ⟨value, _, -, h⟩ := exec_bind_eq_ok h
  dsimp only at h
  split at h <;> split at h <;> cases h
  · exact v.take_sublist _ _
  · exact v.take_sublist _ _

theorem sorted_selected {keys : List OrderKey} (h : exec (v.sorted keys env) s = (.ok w, t)) :
    w.selected = v.selected := by
  unfold sorted at h
  split at h
  · cases h
    rfl
  · exact (orderBy_header (Stage.exec_runOn_eq_ok h)).2

/-- An offset and a limit keep some of the sorted records, in their order. -/
theorem finish_sublist {keys : List OrderKey} {offset : Option Operand}
    {limit : Option LimitClause} (hv : v.Single) (hs : v.selected = none)
    (h : exec (v.finish keys offset limit env) s = (.ok w, t)) :
    ∃ x u, exec (v.sorted keys env) s = (.ok x, u) ∧ w.records.Sublist x.records := by
  obtain ⟨x, y, z, u, _, hx, hy, hz, rfl⟩ := finish_eq_ok h
  have dropped : y.records.Sublist x.records ∧ y.selected = x.selected :=
    clause_keeps (P := fun y => y.records.Sublist x.records ∧ y.selected = x.selected)
      ⟨List.Sublist.refl _, rfl⟩ (fun o s t w h => ⟨offset_sublist h, (offset_header h).2⟩) hy
  have taken : z.records.Sublist y.records ∧ z.selected = y.selected :=
    clause_keeps (P := fun z => z.records.Sublist y.records ∧ z.selected = y.selected)
      ⟨List.Sublist.refl _, rfl⟩ (fun c s t w h => ⟨limit_sublist h, (limit_header h).2⟩) hz
  have kept := taken.1.trans dropped.1
  have single : z.Single := fun r hr => sorted_single hv hx r (kept.subset hr)
  have unselected : z.selected = none := by
    rw [taken.2, dropped.2, sorted_selected hx, hs]
  rw [single.fix_records unselected]
  exact ⟨x, u, hx, kept⟩

/-- The last clauses leave the rows alone exactly if sorting does and none are dropped. -/
theorem finish_records_eq_iff {keys : List OrderKey} {offset : Option Operand}
    {limit : Option LimitClause} (hv : v.Single) (hs : v.selected = none)
    (h : exec (v.finish keys offset limit env) s = (.ok w, t)) :
    ∃ x u, exec (v.sorted keys env) s = (.ok x, u) ∧
      (w.records = v.records ↔
        x.records = v.records ∧ w.records.length = v.records.length) := by
  obtain ⟨x, u, hx, kept⟩ := finish_sublist hv hs h
  have length := sorted_length hx
  refine ⟨x, u, hx, fun same => ?_, fun ⟨unmoved, whole⟩ => ?_⟩
  · have all : w.records = x.records := kept.eq_of_length (by rw [same, length])
    exact ⟨all.symm.trans same, congrArg List.length same⟩
  · exact (kept.eq_of_length (whole.trans length.symm)).trans unmoved

end View

/-! ## Recursive tables -/

namespace RecursiveUnion

variable {u : RecursiveUnion} {header : Header} {first : View} {before : List Record}
  {produced layers : List (List Record)}

/-- All layers hold single values if the first one does. -/
theorem Unfolds.single (h : u.Unfolds env header before s produced layers t)
    (start : ∀ layer ∈ layers.head?, ∀ r ∈ layer, r.Single) :
    ∀ r ∈ layers.flatten, r.Single := by
  induction h with
  | done => exact fun r hr => by cases hr
  | round _ step added _ ih =>
    obtain ⟨v, -, -, rfl⟩ := step
    rw [List.flatten_cons]
    refine List.forall_mem_append.mpr ⟨start _ rfl, ih fun _ hnext => ?_⟩
    cases hnext
    rw [added]
    exact fun r hr => v.fix_single r (View.newRecords_subset hr)

theorem Computes.table_single (h : u.Computes env s first produced layers t) :
    (table first layers).Single := by
  obtain ⟨v, _, _, -, named, rfl, unfolds⟩ := h
  have records : first.records = v.fix.records := by
    unfold inlineView at named
    split at named
    · cases named
    · cases named
      rfl
  refine unfolds.single fun _ hlayer r hr => ?_
  cases hlayer
  exact v.fix_single r (records ▸ View.newRecords_subset hr)

end RecursiveUnion

open RecursiveUnion in
/-- Whatever clauses stand around a recursive union, its table is the one of its layers, computed
where the tables of its own `WITH` clause are unknown. Without such tables it has the rows that the
sort keys, the offset and the limit ask for exactly if sorting does not move a row and neither of
the others drops one. -/
theorem recursive_table_ignores_clauses (u : RecursiveUnion) (reads : u.step.reads u.name = true)
    (recursive : Bool) (tables later : List InlineDef) (order : List OrderItem)
    (offset : Option Expr) (limit : Limit) (env after : Env) (s t : Scope) :
    (exec (inlineTables (u.definitionWith recursive tables order offset limit :: later) true env) s
        = (.ok after, t) ↔
      ∃ first produced layers w, u.Computes env s first produced layers w ∧
        produced.length < env.settings.rounds ∧
        exec (inlineTables later true (env.withInlineTable ⟨u.name, table first layers⟩)) w
          = (.ok after, t)) ∧
    ∀ first produced layers w, u.Computes env s first produced layers w →
      ∀ asked x, exec ((table first layers).finish (orderKeys order) (optionOperand offset)
          limit.clause? env) w = (.ok asked, x) →
        ∃ sorted y, exec ((table first layers).sorted (orderKeys order) env) w = (.ok sorted, y) ∧
          (asked.records = (table first layers).records ↔
            sorted.records = (table first layers).records ∧
              asked.records.length = (table first layers).records.length) := by
  refine ⟨inlineTables_eq_ok_iff reads, fun first produced layers w computes asked x finished => ?_⟩
  exact View.finish_records_eq_iff computes.table_single rfl finished

open RecursiveUnion in
/-- A `LIMIT 1` behind the union of copies asks for its first row; the table has both. -/
theorem recursive_table_ignores_clauses_of_copies :
    let limit : Limit := .rows (.literal (.integer 1)) false false
    copies.step.reads copies.name = true ∧
      (∃ after, exec (inlineTables [copies.definitionWith false [] [] none limit] true {}) {}
          = (.ok after, {}) ∧
        after.inlineTables.map (fun t => t.view.records) = [copies.layer]) ∧
      ∃ asked x, exec ((table copies.first [copies.layer, []]).finish (orderKeys [])
          (optionOperand none) limit.clause? {}) {} = (.ok asked, x) ∧
        asked.records ≠ copies.layer := by
  intro limit
  have finished : exec ((table copies.first [copies.layer, []]).finish (orderKeys [])
      (optionOperand none) limit.clause? {}) {}
        = (.ok { header := copies.first.header, records := copies.layer.take 1 }, {}) := rfl
  obtain ⟨runs, same⟩ := recursive_table_ignores_clauses copies copies.reads false [] [] [] none
    limit {} ({ : Env}.withInlineTable ⟨"t", table copies.first [copies.layer, []]⟩) {} {}
  have ran := runs.mpr ⟨copies.first, _, _, {}, copies.computes, by decide, rfl⟩
  obtain ⟨_, _, -, criterion⟩ := same copies.first _ _ _ copies.computes _ _ finished
  refine ⟨copies.reads, ⟨_, ran, rfl⟩, _, _, finished, fun equal => ?_⟩
  exact absurd (criterion.mp equal).2 (by decide)

end TableQuery
