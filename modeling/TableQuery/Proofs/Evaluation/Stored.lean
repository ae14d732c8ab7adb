import TableQuery.Evaluation.Meaning
import TableQuery.Proofs.Evaluation.WellFormed

/-!
# Views of sources hold no computed columns

What is computed for an expression is looked up by its text among the columns that come from no
table. A view that a source gives has no such column with a name, so in its rows nothing is known
yet and every expression is evaluated.
-/

namespace TableQuery

open Eval

variable {env : Env} {s t : Scope} {u v w : View}

/-! ## Headers -/

/-- Every column with a name comes from a table. -/
def Header.Stored (h : Header) : Prop :=
  ∀ c ∈ h.columns, c.fromTable = true ∨ c.name = ""

theorem Header.Stored.findComputed? {h : Header} (hh : h.Stored) (text : String) :
    h.findComputed? text = none := by
  refine List.findIdx?_eq_none_iff.mpr fun c hc => ?_
  obtain table | nameless := hh c hc
  · rw [table]
    rfl
  · rw [nameless]
    simp

theorem Header.stored_ofNames (table : String) (names : List String) :
    (Header.ofNames table names).Stored := by
  intro c hc
  obtain ⟨i, hi, rfl⟩ := List.mem_mapIdx.mp hc
  exact .inl rfl

theorem Header.Stored.append {h k : Header} (hh : h.Stored) (hk : k.Stored) :
    (h.append k).Stored :=
  fun c hc => (List.mem_append.mp hc).elim (hh c) (hk c)

/-! ## Views -/

/-- A view as sources give it: rows, none of which stands for a group, and nothing computed. -/
structure View.Stored (v : View) : Prop where
  ungrouped : v.grouped = false
  header : v.header.Stored

theorem View.stored_dual : View.dual.Stored where
  ungrouped := rfl
  header _ hc := .inr (List.mem_singleton.mp hc ▸ rfl)

theorem View.stored_asTable (v : View) (table : String) (names : List String) :
    (v.asTable table names).Stored :=
  ⟨rfl, Header.stored_ofNames _ _⟩

theorem View.stored_ofRows (table : String) (names : List String) (rows : List (List Value)) :
    (View.ofRows (.ofNames table names) rows).Stored :=
  ⟨rfl, Header.stored_ofNames _ _⟩

theorem View.Stored.mergePairs (hv : v.Stored) (pairs : List (Nat × Nat)) (rightFirst : Bool) :
    (v.mergePairs pairs rightFirst).Stored where
  ungrouped := hv.ungrouped
  header c hc := by
    obtain front | column := List.mem_append.mp hc
    · obtain ⟨_, -, rfl⟩ := List.mem_map.mp front
      exact .inl rfl
    · obtain ⟨i, hi, rfl⟩ := List.mem_mapIdx.mp column
      have old := hv.header _ (List.getElem_mem hi)
      split
      · exact old
      · exact old

theorem View.Stored.keepWhere (hv : v.Stored) {condition : Operand}
    (h : exec (v.keepWhere condition env) s = (.ok w, t)) : w.Stored := by
  obtain ⟨-, header, grouped⟩ := View.keepWhere_records h
  exact ⟨grouped.trans hv.ungrouped, header ▸ hv.header⟩

/-! ## Sources -/

theorem renameView_stored (hv : v.Stored) (aliasName : Option String) :
    (renameView aliasName v).Stored := by
  unfold renameView
  split
  · exact v.stored_asTable _ _
  · exact hv

theorem loadNamed_stored {name : String} {aliasName : Option String}
    (h : exec (loadNamed name aliasName env) s = (.ok v, t)) : v.Stored := by
  unfold loadNamed at h
  split at h
  · cases h
    exact View.stored_asTable _ _ _
  · obtain ⟨u, _, -, h⟩ := exec_bind_eq_ok h
    split at h
    · cases h
      exact View.stored_asTable _ _ _
    · obtain ⟨w, _, hw, h⟩ := exec_bind_eq_ok h
      cases h
      refine renameView_stored ?_ aliasName
      have hload := (Prod.mk.inj hw).1
      unfold Catalog.load at hload
      split at hload <;> cases hload
      exact View.stored_ofRows _ _ _

theorem loadStdin_stored {aliasName : Option String}
    (h : exec (loadStdin aliasName env) s = (.ok v, t)) : v.Stored := by
  obtain ⟨w, _, hw, h⟩ := exec_bind_eq_ok h
  cases h
  refine renameView_stored ?_ aliasName
  have hload := (Prod.mk.inj hw).1
  unfold Catalog.loadStdin at hload
  split at hload <;> cases hload
  exact View.stored_ofRows _ _ _

theorem sourceOfResult_stored {aliasName : Option String} {columns : List String} {result : View}
    (h : sourceOfResult aliasName columns result = .ok v) : v.Stored := by
  unfold sourceOfResult at h
  dsimp only at h
  split at h <;> cases h
  exact View.stored_asTable _ _ _

theorem loadValues_stored {rows : List (List Operand)} {aliasName : Option String}
    {columns : List String} (h : exec (loadValues rows aliasName columns env) s = (.ok v, t)) :
    v.Stored := by
  obtain ⟨values, _, -, h⟩ := exec_bind_eq_ok h
  dsimp only at h
  split at h <;> cases h
  exact View.stored_ofRows _ _ _

theorem View.Stored.cross (hu : u.Stored) (hv : v.Stored) : (u.cross v).Stored :=
  ⟨rfl, hu.header.append hv.header⟩

theorem matchJoin_stored {kind : JoinKind} {condition : Option JoinCondition} (hu : u.Stored)
    (hv : v.Stored) (h : exec (matchJoin kind u v condition env) s = (.ok w, t)) : w.Stored := by
  obtain ⟨result, _, -, h⟩ := exec_bind_eq_ok h
  cases h
  exact ⟨rfl, hu.header.append hv.header⟩

theorem joinViews_stored {kind : JoinKind} {on : JoinOn} (hu : u.Stored) (hv : v.Stored)
    (h : exec (joinViews kind on u v env) s = (.ok w, t)) : w.Stored := by
  obtain ⟨pairs?, _, -, h⟩ := exec_bind_eq_ok h
  dsimp only at h
  split at h
  · cases pairs? with
    | some pairs =>
      cases h
      exact (hu.cross hv).mergePairs _ _
    | none =>
      cases h
      exact hu.cross hv
  · obtain ⟨joined, _, hj, h⟩ := exec_bind_eq_ok h
    cases pairs? with
    | some pairs =>
      cases h
      exact (matchJoin_stored hu hv hj).mergePairs _ _
    | none =>
      cases h
      exact matchJoin_stored hu hv hj

theorem Source.load_stored (source : Source) {s t : Scope} {v : View}
    (h : exec (source.load env) s = (.ok v, t)) : v.Stored := by
  match source with
  | .named name aliasName => exact loadNamed_stored h
  | .dual aliasName =>
    cases h
    exact View.stored_dual
  | .stdin aliasName => exact loadStdin_stored h
  | .subquery q aliasName columns =>
    obtain ⟨result, _, -, h⟩ := exec_bind_eq_ok h
    exact sourceOfResult_stored (Prod.mk.inj h).1
  | .values rows aliasName columns => exact loadValues_stored h
  | .join kind left right m =>
    obtain ⟨a, _, ha, h⟩ := exec_bind_eq_ok h
    obtain ⟨b, _, hb, h⟩ := exec_bind_eq_ok h
    exact joinViews_stored (left.load_stored ha) (right.load_stored hb) h
termination_by structural source

theorem mem_loaders {sources : List Source} {load : Env → Eval View}
    (h : load ∈ loaders sources) : ∃ source : Source, load = fun env => source.load env := by
  induction sources with
  | nil => cases h
  | cons source sources ih =>
    rw [loaders, List.mem_cons] at h
    exact h.elim (fun h => ⟨source, h⟩) ih

theorem crossAll_stored {loads : List (Env → Eval View)}
    (stored : ∀ load ∈ loads, ∀ s t v, exec (load env) s = (.ok v, t) → v.Stored) (hv : v.Stored)
    (h : exec (loads.foldlM (fun v load => return v.cross (← load env)) v) s = (.ok w, t)) :
    w.Stored := by
  induction loads generalizing v s with
  | nil =>
    cases h
    exact hv
  | cons load loads ih =>
    rw [List.foldlM_cons] at h
    obtain ⟨x, r, hx, h⟩ := exec_bind_eq_ok h
    obtain ⟨y, _, hy, hx⟩ := exec_bind_eq_ok hx
    cases hx
    exact ih (fun load hl => stored load (by simp [hl]))
      (hv.cross (stored load (by simp) _ _ _ hy)) h

/-- All sources side by side give a view without computed columns. -/
theorem loadAll_stored (sources : List Source)
    (h : exec (loadAll env (loaders sources)) s = (.ok v, t)) : v.Stored := by
  have stored : ∀ load ∈ loaders sources, ∀ s t v, exec (load env) s = (.ok v, t) → v.Stored := by
    intro load hl s t v h
    obtain ⟨source, rfl⟩ := mem_loaders hl
    exact source.load_stored h
  generalize loaders sources = loads at h stored
  cases loads with
  | nil =>
    cases h
    exact View.stored_dual
  | cons load loads =>
    obtain ⟨x, r, hx, h⟩ := exec_bind_eq_ok h
    exact crossAll_stored (fun load hl => stored load (by simp [hl]))
      (stored load (by simp) _ _ _ hx) h

end TableQuery
