import TableQuery.Proofs.Evaluation.Frame
import TableQuery.Proofs.Evaluation.Results
import TableQuery.Proofs.Evaluation.WellFormed

/-!
# Results are flat

Every result of a query is ungrouped and rectangular, with one value in each cell. The proof follows
the recursion of the evaluation over queries, bodies, sources and inline tables; expressions matter
only in that they leave the views of the session alone.
-/

namespace TableQuery

open Eval

variable {v w : View} {env : Env} {s t : Scope}

/-! ## What queries start from -/

/-- The views of the session are rectangular. -/
def Scope.Regular (s : Scope) : Prop :=
  ∀ views ∈ s.declaredViews, ∀ entry ∈ views.entries, entry.2.Rectangular

/-- The tables that a query can read are rectangular. -/
structure Env.Regular (env : Env) : Prop where
  catalog : env.settings.catalog.Regular
  inline : ∀ t ∈ env.inlineTables, t.view.Rectangular
  recursive : ∀ t ∈ env.recursive, t.view.Rectangular

theorem Scope.Regular.of_declaredViews (hs : s.Regular) (h : t.declaredViews = s.declaredViews) :
    t.Regular := by
  unfold Scope.Regular
  rw [h]
  exact hs

theorem Scope.view?_rectangular (hs : s.Regular) {name : String} (h : s.view? name = some v) :
    v.Rectangular := by
  obtain ⟨frame, hf, hv⟩ := List.exists_of_findSome?_eq_some h
  obtain ⟨key, hk⟩ := NameMap.mem_of_get? hv
  exact hs frame.views (List.mem_map_of_mem hf) (key, v) hk

namespace Env.Regular

theorem withInlineTable (h : env.Regular) {table : InlineTable} (ht : table.view.Rectangular) :
    (env.withInlineTable table).Regular where
  catalog := h.catalog
  inline := by
    intro x hx
    rcases List.mem_cons.mp hx with rfl | hx
    · exact ht
    · exact h.inline x hx
  recursive := h.recursive

theorem withRecursive (h : env.Regular) {table : InlineTable} (ht : table.view.Rectangular) :
    (env.withRecursive table).Regular where
  catalog := h.catalog
  inline := h.inline
  recursive := by
    intro x hx
    cases hx
    exact ht

theorem inlineTable? (h : env.Regular) {name : String} {table : InlineTable}
    (ht : env.inlineTable? name = some table) : table.view.Rectangular := by
  rcases List.mem_append.mp (List.mem_of_find?_eq_some ht) with hm | hm
  · exact h.recursive table (Option.mem_toList.mp hm)
  · exact h.inline table hm

end Env.Regular

/-! ## Joins -/

namespace Matcher

/-- What the matcher puts beside a driving record makes records of a width. -/
structure Makes (m : Matcher) (width : Nat) (driving : Record) : Prop where
  others : ∀ other ∈ m.others, (m.pair driving other).width = width
  padding : ∀ p ∈ m.padding, (m.pair driving p).width = width

variable {m : Matcher} {width : Nat}

theorem recordsFor_width {driving : Record} (h : m.Makes width driving) (flags : List Bool) :
    ∀ r ∈ m.recordsFor driving flags, r.width = width := by
  intro r hr
  unfold recordsFor at hr
  dsimp only at hr
  split at hr
  · obtain ⟨p, hp, rfl⟩ := Option.map_eq_some_iff.mp (Option.mem_toList.mp hr)
    exact h.padding p hp
  · obtain ⟨⟨other, flag⟩, ho, rfl⟩ := List.mem_map.mp hr
    exact h.others other (List.of_mem_zip (List.mem_filter.mp ho).1).1

theorem matchRecord_width {driving : Record} (h : m.Makes width driving) {result : MatchResult}
    (hx : exec (m.matchRecord driving) s = (.ok result, t)) :
    ∀ r ∈ result.records, r.width = width := by
  obtain ⟨flags, _, -, hx⟩ := exec_bind_eq_ok hx
  cases hx
  exact recordsFor_width h flags

theorem matchChunk_width {driving : List Record} (h : ∀ d ∈ driving, m.Makes width d)
    {result : MatchResult} (hx : exec (m.matchChunk driving) s = (.ok result, t)) :
    ∀ r ∈ result.records, r.width = width := by
  obtain ⟨results, _, hs, hx⟩ := exec_bind_eq_ok hx
  cases hx
  intro r hr
  obtain ⟨part, hp, hr⟩ := List.mem_flatMap.mp hr
  obtain ⟨d, hd, _, _, hm⟩ := exists_of_mem_exec_mapM hs hp
  exact matchRecord_width (h d hd) hm r hr

theorem matchChunks_width {driving : List Record} (h : ∀ d ∈ driving, m.Makes width d)
    {ranges : List (Nat × Nat)} {result : MatchResult}
    (hx : exec (m.matchChunks driving ranges) s = (.ok result, t)) :
    ∀ r ∈ result.records, r.width = width := by
  obtain ⟨results, _, hs, hx⟩ := exec_bind_eq_ok hx
  cases hx
  intro r hr
  obtain ⟨part, hp, hr⟩ := List.mem_flatMap.mp hr
  obtain ⟨range, -, _, _, hm⟩ := exists_of_mem_exec_mapM hs hp
  refine matchChunk_width (fun d hd => ?_) hm r hr
  exact h d (List.mem_of_mem_drop (List.mem_of_mem_take hd))

end Matcher

/-- A join puts records of both sides, or NULLs in their place, side by side. -/
theorem matcherOf_makes (kind : JoinKind) {left right : View} (hl : left.Rectangular)
    (hr : right.Rectangular) (test : Record → Eval Bool) :
    ∀ d ∈ drivingRecords kind left right,
      (matcherOf kind left right test).Makes (left.header.width + right.header.width) d := by
  intro d hd
  cases kind
  case right =>
    refine ⟨fun o ho => ?_, fun p hp => ?_⟩
    · exact (Record.width_append o d).trans (by rw [hl o ho, hr d hd])
    · cases hp
      exact (Record.width_append _ d).trans (by rw [Record.width_nulls, hr d hd])
  all_goals
    refine ⟨fun o ho => ?_, fun p hp => ?_⟩
    · exact (Record.width_append d o).trans (by rw [hl d hd, hr o ho])
    · cases hp
      try exact (Record.width_append d _).trans (by rw [hl d hd, Record.width_nulls])

theorem matchJoin_rectangular {kind : JoinKind} {left right : View} (hl : left.Rectangular)
    (hr : right.Rectangular) {condition : Option JoinCondition}
    (h : exec (matchJoin kind left right condition env) s = (.ok v, t)) : v.Rectangular := by
  obtain ⟨result, _, hm, h⟩ := exec_bind_eq_ok h
  have matched := Matcher.matchChunks_width (matcherOf_makes kind hl hr _) hm
  have hwidth : (left.header.append right.header).width = left.header.width + right.header.width :=
    Header.width_append _ _
  cases h
  intro r hm
  refine Eq.trans ?_ hwidth.symm
  unfold joinedView joinedRecords at hm
  dsimp only at hm
  split at hm
  · rcases List.mem_append.mp hm with hm | hm
    · exact matched r hm
    · obtain ⟨⟨q, flag⟩, hq, rfl⟩ := List.mem_map.mp hm
      have := (List.of_mem_zip (List.mem_filter.mp hq).1).1
      rw [Record.width_append, Record.width_nulls, hr q this]
  · exact matched r hm

theorem View.mergePairs_rectangular (hv : v.Rectangular) (pairs : List (Nat × Nat))
    (rightFirst : Bool) : (v.mergePairs pairs rightFirst).Rectangular := by
  intro r hr
  obtain ⟨q, hq, rfl⟩ := List.mem_map.mp hr
  rw [Record.width_append, Record.width_ofValues, hv q hq]
  simp [View.mergePairs, Header.width]

theorem joinViews_rectangular {kind : JoinKind} {on : JoinOn} {left right : View}
    (hl : left.Rectangular) (hr : right.Rectangular)
    (h : exec (joinViews kind on left right env) s = (.ok v, t)) : v.Rectangular := by
  obtain ⟨pairs?, _, -, h⟩ := exec_bind_eq_ok h
  have hcross := View.cross_rectangular hl hr
  cases pairs? with
  | none =>
    dsimp only at h
    split at h
    · cases h
      exact hcross
    · obtain ⟨x, _, hx, h⟩ := exec_bind_eq_ok h
      cases h
      exact matchJoin_rectangular hl hr hx
  | some pairs =>
    dsimp only at h
    split at h
    · cases h
      exact View.mergePairs_rectangular hcross _ _
    · obtain ⟨x, _, hx, h⟩ := exec_bind_eq_ok h
      cases h
      exact View.mergePairs_rectangular (matchJoin_rectangular hl hr hx) _ _

/-! ## Sources -/

theorem renameView_rectangular (hv : v.Rectangular) (aliasName : Option String) :
    (renameView aliasName v).Rectangular := by
  unfold renameView
  split
  · exact View.asTable_rectangular hv _ _
  · exact hv

theorem loadNamed_rectangular (he : env.Regular) (hs : s.Regular) {name : String}
    {aliasName : Option String} (h : exec (loadNamed name aliasName env) s = (.ok v, t)) :
    v.Rectangular := by
  unfold loadNamed at h
  split at h
  · rename_i table ht
    cases h
    exact View.asTable_rectangular (he.inlineTable? ht) _ _
  · obtain ⟨scope, u, hget, h⟩ := exec_bind_eq_ok h
    cases hget
    split at h
    · rename_i view hview
      cases h
      exact View.asTable_rectangular (Scope.view?_rectangular hs hview) _ _
    · obtain ⟨x, _, hx, h⟩ := exec_bind_eq_ok h
      rw [exec_lift] at hx
      cases h
      exact renameView_rectangular (Catalog.load_rectangular he.catalog (Prod.mk.inj hx).1) _

theorem loadStdin_rectangular (he : env.Regular) {aliasName : Option String}
    (h : exec (loadStdin aliasName env) s = (.ok v, t)) : v.Rectangular := by
  obtain ⟨x, _, hx, h⟩ := exec_bind_eq_ok h
  rw [exec_lift] at hx
  cases h
  exact renameView_rectangular (Catalog.loadStdin_rectangular he.catalog (Prod.mk.inj hx).1) _

theorem sourceOfResult_rectangular (hv : v.Rectangular) {aliasName : Option String}
    {columns : List String} (h : sourceOfResult aliasName columns v = .ok w) : w.Rectangular := by
  unfold sourceOfResult at h
  dsimp only at h
  split at h
  · cases h
  · cases h
    exact View.asTable_rectangular hv _ _

theorem evalRows_width {width : Nat} {rows : List (List Operand)} {values : List (List Value)}
    (h : exec (evalRows width env rows) s = (.ok values, t)) :
    ∀ row ∈ values, row.length = width := by
  induction rows generalizing s t values with
  | nil =>
    cases h
    intro row hr
    cases hr
  | cons row rows ih =>
    unfold evalRows at h
    dsimp only at h
    split at h
    · cases h
    · rename_i hw
      obtain ⟨vs, _, hvs, h⟩ := exec_bind_eq_ok h
      obtain ⟨vss, _, hvss, h⟩ := exec_bind_eq_ok h
      have hwidth : row.length = width := by simpa using hw
      have first := (length_of_exec_mapM hvs).trans hwidth
      have rest := ih hvss
      cases h
      exact List.forall_mem_cons.mpr ⟨first, rest⟩

theorem loadValues_rectangular {rows : List (List Operand)} {aliasName : Option String}
    {columns : List String} (h : exec (loadValues rows aliasName columns env) s = (.ok v, t)) :
    v.Rectangular := by
  obtain ⟨values, _, hvs, h⟩ := exec_bind_eq_ok h
  have widths := evalRows_width hvs
  dsimp only at h
  split at h
  · cases h
  · rename_i hcount
    cases h
    refine View.ofRows_rectangular fun row hrow => ?_
    rw [widths row hrow, Header.width_ofNames]
    split
    · simp
    · rename_i hempty
      simp only [hempty] at hcount
      have hcount : columns.length = (rows.head?.map List.length).getD 0 := by simpa using hcount
      exact hcount.symm

/-! ## Inline tables -/

/-- A successful run gives a view with a property, and leaves the views of the session
rectangular. -/
def Gives (Q : View → Prop) (run : Env → Eval View) : Prop :=
  ∀ env s v t, env.Regular → s.Regular → exec (run env) s = (.ok v, t) → t.Regular ∧ Q v

theorem inlineView_rectangular (hv : v.Rectangular) {name : String} {columns : List String}
    (h : inlineView name columns v = .ok w) : w.Rectangular := by
  unfold inlineView at h
  split at h
  · cases h
  · cases h
    exact View.asTable_rectangular hv _ _

theorem freshRecords_subset (clock : Calendar.Clock) (all : Bool) (seen : List String)
    (rs : List Record) : (freshRecords clock all seen rs).1 ⊆ rs := by
  unfold freshRecords
  split
  · exact List.Subset.refl _
  · exact View.uniqueFrom_subset _ _ _

/-- What every round of a recursive table adds is as wide as the table. -/
theorem recursiveRounds_width {name : String} {header : Header} {parts : UnionParts}
    (hp : Gives View.WellFormed parts.runStep) (he : env.Regular) (hs : s.Regular) {rounds : Nat}
    {seen : List String} {working added : List Record} (hw : ∀ r ∈ working, r.width = header.width)
    (h : exec (recursiveRounds name header parts env rounds seen working) s = (.ok added, t)) :
    ∀ r ∈ added, r.width = header.width := by
  induction rounds generalizing s t seen working added with
  | zero => cases h
  | succ rounds ih =>
    unfold recursiveRounds at h
    dsimp only at h
    split at h
    · cases h
      intro r hr
      cases hr
    obtain ⟨next, u, hnext, h⟩ := exec_bind_eq_ok h
    have hround : (env.withRecursive ⟨name, { header, records := working }⟩).Regular :=
      he.withRecursive hw
    obtain ⟨hu, wf⟩ := hp _ _ _ _ hround hs hnext
    split at h
    · cases h
    rename_i hwidth
    have hwidth : next.fix.header.width = header.width := by simpa using hwidth
    obtain ⟨rest, _, hrest, h⟩ := exec_bind_eq_ok h
    -- the round was checked to be as wide as the table
    have fresh : ∀ r ∈ (freshRecords env.clock parts.all seen next.fix.records).1,
        r.width = header.width := fun r hr =>
      (wf.fix_flat.rectangular r (freshRecords_subset _ _ _ _ hr)).trans hwidth
    have added := ih hu fresh hrest
    cases h
    exact List.forall_mem_append.mpr ⟨fresh, added⟩

theorem recursiveTable_rectangular {name : String} {columns : List String} {parts : UnionParts}
    (ha : Gives View.WellFormed parts.anchor) (hp : Gives View.WellFormed parts.runStep)
    (he : env.Regular) (hs : s.Regular)
    (h : exec (recursiveTable name columns parts env) s = (.ok v, t)) : v.Rectangular := by
  obtain ⟨anchor, u, hanchor, h⟩ := exec_bind_eq_ok h
  obtain ⟨hu, wf⟩ := ha _ _ _ _ he hs hanchor
  obtain ⟨first, x, hfirst, h⟩ := exec_bind_eq_ok h
  obtain ⟨hview, rfl⟩ := Prod.mk.inj hfirst
  have rectangular := inlineView_rectangular wf.fix_flat.rectangular hview
  obtain ⟨added, _, hadded, h⟩ := exec_bind_eq_ok h
  have fresh : ∀ r ∈ (freshRecords env.clock parts.all [] first.records).1,
      r.width = first.header.width := fun r hr =>
    rectangular r (freshRecords_subset _ _ _ _ hr)
  have widths := recursiveRounds_width hp he hu fresh hadded
  cases h
  exact List.forall_mem_append.mpr ⟨fresh, widths⟩

theorem inlineTable_rectangular {recursive : Bool} {name : String} {columns : List String}
    {parts? : Option UnionParts} {run : Env → Eval View}
    (hp : ∀ parts ∈ parts?,
      Gives View.WellFormed parts.anchor ∧ Gives View.WellFormed parts.runStep)
    (hr : Gives View.Flat run) (he : env.Regular) (hs : s.Regular)
    (h : exec (inlineTable recursive name columns parts? run env) s = (.ok v, t)) :
    v.Rectangular := by
  have plain (h : exec (do inlineView name columns (← run env)) s = (.ok v, t)) :
      v.Rectangular := by
    obtain ⟨x, u, hx, h⟩ := exec_bind_eq_ok h
    obtain ⟨-, flat⟩ := hr _ _ _ _ he hs hx
    exact inlineView_rectangular flat.rectangular (Prod.mk.inj h).1
  unfold inlineTable at h
  split at h
  · split at h
    · exact recursiveTable_rectangular (hp _ rfl).1 (hp _ rfl).2 he hs h
    · exact plain h
  · exact plain h

/-! ## Queries -/

/-- What agrees with itself on all scopes with the same views leaves them rectangular. -/
theorem Scope.Regular.of_same {α : Type} {x : Eval α} {r : Except QueryError α} (hs : s.Regular)
    (hx : Eval.Same (fun u => u.declaredViews = s.declaredViews) x x) (h : exec x s = (r, t)) :
    t.Regular := by
  have keeps := hx.keeps rfl
  rw [h] at keeps
  exact hs.of_declaredViews keeps

theorem inlineTables_regular {tables : List InlineDef} {recursive : Bool} {after : Env}
    (hs : s.Regular) (h : exec (inlineTables tables recursive env) s = (.ok after, t)) :
    t.Regular := by
  have same := inlineTables_same (views_agreement s.declaredViews) tables recursive
    (fun _ _ => trivial) (rfl : env = env) (f := fun _ => pure View.dual)
    (g := fun _ => pure View.dual) fun _ _ _ => .pure View.dual
  exact hs.of_same same (exec_bind_ok h _)

mutual

theorem Query.run_gives_flat (q : Query) : Gives View.Flat fun env => q.run env := by
  match q with
  | .mk recursive tables body order offset limit =>
    intro env s v t he hs h
    have same := (Query.mk recursive tables body order offset limit).run_same
      (views_agreement s.declaredViews) (fun _ _ => trivial) (rfl : env = env)
    refine ⟨hs.of_same same h, ?_⟩
    simp only [Query.run] at h
    obtain ⟨after, u, ht, h⟩ := exec_bind_eq_ok h
    obtain ⟨result, _, hb, h⟩ := exec_bind_eq_ok h
    have known := inlineTables_env_regular tables recursive he hs ht
    obtain ⟨-, wf⟩ := body.run_gives_wellFormed _ _ _ _ known (inlineTables_regular hs ht) hb
    exact View.finish_flat wf h
termination_by structural q

theorem inlineTables_env_regular (tables : List InlineDef) (recursive : Bool) {env after : Env}
    {s t : Scope} (he : env.Regular) (hs : s.Regular)
    (h : exec (inlineTables tables recursive env) s = (.ok after, t)) : after.Regular := by
  match tables with
  | [] =>
    cases h
    exact he
  | .mk name columns q :: tables =>
    rw [inlineTables] at h
    have same := inlineTable_same (views_agreement s.declaredViews) recursive name columns
      (q.unionParts?_agree (views_agreement _) fun _ _ => trivial)
      (fun a b hab => q.run_same (views_agreement _) (fun _ _ => trivial) hab) (rfl : env = env)
    obtain ⟨v, u, hv, h⟩ := exec_bind_eq_ok h
    have rectangular := inlineTable_rectangular q.unionParts?_gives q.run_gives_flat he hs hv
    exact inlineTables_env_regular tables recursive (he.withInlineTable rectangular)
      (hs.of_same same hv) h
termination_by structural tables

theorem Query.unionParts?_gives (q : Query) : ∀ parts ∈ q.unionParts?,
    Gives View.WellFormed parts.anchor ∧ Gives View.WellFormed parts.runStep := by
  match q with
  | .mk _ _ (.combine .union all left right) _ _ _ =>
    intro parts hp
    cases hp
    exact ⟨left.run_gives_wellFormed, right.run_gives_wellFormed⟩
  | .mk _ _ (.combine .except _ _ _) _ _ _ | .mk _ _ (.combine .intersect _ _ _) _ _ _
  | .mk _ _ (.select ..) _ _ _ | .mk _ _ (.nested _) _ _ _ =>
    intro parts hp
    cases hp
termination_by structural q

theorem Body.run_gives_wellFormed (body : Body) :
    Gives View.WellFormed fun env => body.run env := by
  intro env s v t he hs h
  have same := body.run_same (views_agreement s.declaredViews) (fun _ _ => trivial)
    (rfl : env = env)
  refine ⟨hs.of_same same h, ?_⟩
  cases body with
  | select distinct fields sources condition groups having =>
    simp only [Body.run] at h
    obtain ⟨x, _, hx, h⟩ := exec_bind_eq_ok h
    exact View.selectFrom_wellFormed (loadAll_rectangular sources he hs hx) h
  | combine op all left right =>
    simp only [Body.run] at h
    obtain ⟨a, u, ha, h⟩ := exec_bind_eq_ok h
    obtain ⟨hu, left_wf⟩ := left.run_gives_wellFormed _ _ _ _ he hs ha
    obtain ⟨b, x, hb, h⟩ := exec_bind_eq_ok h
    obtain ⟨-, right_wf⟩ := right.run_gives_wellFormed _ _ _ _ he hu hb
    exact View.combine_wellFormed left_wf.fix_flat.wellFormed right_wf.fix_flat.rectangular
      (Prod.mk.inj h).1
  | nested q => exact (q.run_gives_flat _ _ _ _ he hs h).2.wellFormed
termination_by structural body

theorem loadAll_rectangular (sources : List Source) {env : Env} {s t : Scope} {v : View}
    (he : env.Regular) (hs : s.Regular)
    (h : exec (loadAll env (loaders sources)) s = (.ok v, t)) : v.Rectangular := by
  cases sources with
  | nil =>
    cases h
    exact View.dual_rectangular
  | cons first rest =>
    obtain ⟨x, u, hx, h⟩ := exec_bind_eq_ok h
    obtain ⟨hu, rectangular⟩ := first.load_gives_rectangular _ _ _ _ he hs hx
    exact crossAll_rectangular rest he hu rectangular h
termination_by structural sources

/-- Further sources are put beside those that are loaded. -/
theorem crossAll_rectangular (sources : List Source) {env : Env} {s t : Scope} {v w : View}
    (he : env.Regular) (hs : s.Regular) (hv : v.Rectangular)
    (h : exec ((loaders sources).foldlM (fun v load => return v.cross (← load env)) v) s
      = (.ok w, t)) : w.Rectangular := by
  cases sources with
  | nil =>
    cases h
    exact hv
  | cons first rest =>
    rw [loaders, List.foldlM_cons] at h
    obtain ⟨x, u, hx, h⟩ := exec_bind_eq_ok h
    obtain ⟨y, z, hy, hx⟩ := exec_bind_eq_ok hx
    obtain ⟨hu, rectangular⟩ := first.load_gives_rectangular _ _ _ _ he hs hy
    cases hx
    exact crossAll_rectangular rest he hu (View.cross_rectangular hv rectangular) h
termination_by structural sources

theorem Source.load_gives_rectangular (source : Source) :
    Gives View.Rectangular fun env => source.load env := by
  intro env s v t he hs h
  have same := source.load_same (views_agreement s.declaredViews) (fun _ _ => trivial)
    (rfl : env = env)
  refine ⟨hs.of_same same h, ?_⟩
  cases source with
  | named name aliasName => exact loadNamed_rectangular he hs h
  | dual aliasName =>
    cases h
    exact View.dual_rectangular
  | stdin aliasName => exact loadStdin_rectangular he h
  | subquery q aliasName columns =>
    simp only [Source.load] at h
    obtain ⟨x, u, hx, h⟩ := exec_bind_eq_ok h
    obtain ⟨-, flat⟩ := q.run_gives_flat _ _ _ _ he hs hx
    exact sourceOfResult_rectangular flat.rectangular (Prod.mk.inj h).1
  | values rows aliasName columns => exact loadValues_rectangular h
  | join kind left right matching =>
    simp only [Source.load] at h
    obtain ⟨a, u, ha, h⟩ := exec_bind_eq_ok h
    obtain ⟨hu, left_rectangular⟩ := left.load_gives_rectangular _ _ _ _ he hs ha
    obtain ⟨b, x, hb, h⟩ := exec_bind_eq_ok h
    obtain ⟨-, right_rectangular⟩ := right.load_gives_rectangular _ _ _ _ he hu hb
    exact joinViews_rectangular left_rectangular right_rectangular h
termination_by structural source

end

/-- The result of a query is a flat rectangular table: it is not grouped, each record has one cell
for each column, and each cell holds one value. -/
theorem query_result_flat (q : Query) {env : Env} (he : env.Regular) {s : Scope} (hs : s.Regular)
    {v : View} {t : Scope} (h : exec (q.run env) s = (.ok v, t)) :
    v.grouped = false ∧ (∀ r ∈ v.records, r.cells.length = v.header.columns.length) ∧
      ∀ r ∈ v.records, ∀ c ∈ r.cells, c.values.length = 1 := by
  obtain ⟨-, flat⟩ := q.run_gives_flat env s v t he hs h
  exact ⟨flat.ungrouped, flat.rectangular, flat.single⟩

/-- The groups of a registered table, counted. -/
theorem query_result_flat_groups :
    let key : Expr := .column none "a"
    let fields : List Field := [.mk key none, .mk (.aggregate "COUNT" false [.allColumns]) none]
    let body : Body := .select false fields [.named "t" none] none [key] none
    let table : StoredTable := ⟨["a"], [[.integer 1], [.integer 1]]⟩
    let env : Env := { settings := { catalog := { tables := ⟨[("T", table)]⟩ } } }
    Catalog.register {} "t" table.columns table.rows = .ok env.settings.catalog ∧
    ∃ v t, exec ((Query.mk false [] body [] none .all).run env) {} = (.ok v, t) ∧
      v.rows = [[.integer 1, .integer 2]] ∧
      v.grouped = false ∧ (∀ r ∈ v.records, r.cells.length = v.header.columns.length) ∧
        ∀ r ∈ v.records, ∀ c ∈ r.cells, c.values.length = 1 := by
  intro key fields body table env
  have registered : Catalog.register {} "t" table.columns table.rows = .ok env.settings.catalog :=
    rfl
  have regular : env.Regular :=
    ⟨(Catalog.Reachable.register .empty registered).regular, fun _ h => (by cases h),
      fun _ h => (by cases h)⟩
  have scope : Scope.Regular {} := by
    intro views hm entry he
    rw [List.mem_singleton.mp hm] at he
    cases he
  have ran : exec ((Query.mk false [] body [] none .all).run env) {} = (.ok _, _) := rfl
  exact ⟨registered, _, _, ran, rfl, query_result_flat _ regular scope ran⟩

end TableQuery
