import TableQuery.Proofs.Evaluation.TableNames
import TableQuery.Proofs.Session.NameActions
import TableQuery.Proofs.Session.SyntaxErrors

/-!
# Derived tables

The result of a query can be read as a table in three ways: under the name that a `WITH` clause gives
to it, as a subquery among the sources, and as a view that the session keeps. Each of them names the
columns anew, some of them twice. Whatever the result knew of its columns beyond their labels is
forgotten on the way, so that all three give the same table.
-/

namespace TableQuery

open Eval Text

/-! ## Headers -/

namespace Header

variable (h : Header) (table other : String) {names : List String}

@[simp] theorem labels_ofNames (names : List String) : (ofNames table names).labels = names := by
  refine List.ext_getElem? fun i => ?_
  rw [labels, ofNames, List.getElem?_map, List.getElem?_mapIdx]
  cases names[i]? <;> rfl

/-- The names that the columns get: the given ones, or else their labels. -/
def namesOr (h : Header) (names : List String) : List String :=
  if names.isEmpty then h.labels else names

@[simp] theorem namesOr_nil : h.namesOr [] = h.labels := rfl

/-- A result is read as the table of its labels or of as many other names. -/
theorem asTable_of_fits (fits : names = [] ∨ names.length = h.width) :
    h.asTable table names = ofNames table (h.namesOr names) := by
  have labelled : h.labels.length = h.width := List.length_map _
  refine congrArg (ofNames table) ?_
  cases names with
  | nil => exact List.ext_getElem (by simp) fun i _ _ => by simp
  | cons name names =>
    have given : h.labels.length = (name :: names).length :=
      labelled.trans (fits.resolve_left (List.cons_ne_nil _ _)).symm
    show (h.labels.mapIdx fun i label => (name :: names).getD i label) = name :: names
    refine List.ext_getElem ((List.length_mapIdx ..).trans given) fun i _ inside => ?_
    rw [List.getElem_mapIdx, List.getD_eq_getElem?_getD, List.getElem?_eq_getElem inside]
    rfl

/-- Only the labels of a table are kept when it is read as another one. -/
theorem asTable_ofNames (names : List String) :
    (ofNames table names).asTable other [] = ofNames other names := by
  rw [asTable_of_fits _ _ (.inl rfl), namesOr_nil, labels_ofNames]

end Header

/-! ## Loading -/

/-- The result of a query as the table of a reference name, with columns of the given names or else
of its labels. -/
def View.derived (result : View) (reference : String) (names : List String) : View :=
  { header := .ofNames reference (result.header.namesOr names), records := result.records }

section

variable {env : Env} {s t : Scope} {result : View} {name reference : String} {names : List String}

theorem View.asTable_eq_derived (fits : names = [] ∨ names.length = result.header.width) :
    result.asTable reference names = result.derived reference names := by
  rw [View.asTable, Header.asTable_of_fits _ _ fits, View.derived]

/-- A derived table is read under another name like the result itself. -/
theorem View.asTable_derived (result : View) (name reference : String) (names : List String) :
    (result.derived name names).asTable reference [] = result.derived reference names := by
  rw [View.asTable, View.derived, Header.asTable_ofNames, View.derived]

theorem exec_loadNamed_of_inline {table : InlineTable} (known : env.inlineTable? name = some table) :
    exec (loadNamed name (some reference) env) s
      = (.ok (table.view.asTable reference []), s) := by
  rw [loadNamed, known]
  rfl

theorem exec_loadNamed_of_view (unknown : env.inlineTable? name = none)
    (kept : s.view? name = some result) :
    exec (loadNamed name (some reference) env) s = (.ok (result.asTable reference []), s) := by
  rw [loadNamed, unknown, exec_bind_ok (exec_get s), kept]
  rfl

/-- A `WITH` clause gives the name to the table of the result. -/
theorem exec_inlineTables_of_run {q : Query} (ran : exec (q.run env) s = (.ok result, t))
    (fits : names = [] ∨ names.length = result.header.width) (later : List InlineDef) :
    exec (inlineTables (.mk name names q :: later) false env) s
      = exec (inlineTables later false
          (env.withInlineTable ⟨name, result.derived name names⟩)) t := by
  have plain : inlineTable false name names q.unionParts? (fun env => q.run env) env
      = q.run env >>= fun v => liftM (inlineView name names v) := by
    unfold inlineTable
    cases q.unionParts? <;> rfl
  have view : inlineView name names result = .ok (result.derived name names) := by
    rw [inlineView, if_neg, View.asTable_eq_derived fits]
    rcases fits with rfl | fits <;> simp [*]
  have table : exec (inlineTable false name names q.unionParts? (fun env => q.run env) env) s
      = (.ok (result.derived name names), t) := by
    rw [plain, exec_bind_ok ran, exec_lift, view]
  rw [inlineTables, exec_bind_ok table]

/-- A subquery among the sources is the table of its result. -/
theorem exec_load_subquery {q : Query} (ran : exec (q.run env) s = (.ok result, t))
    (fits : names = [] ∨ names.length = result.header.width) :
    exec ((Source.subquery q (some reference) names).load env) s
      = (.ok (result.derived reference names), t) := by
  have view : sourceOfResult (some reference) names result = .ok (result.derived reference names) := by
    rw [sourceOfResult, Option.getD_some, if_neg, View.asTable_eq_derived fits]
    rcases fits with rfl | fits <;> simp [*]
  rw [Source.load, exec_bind_ok ran, exec_lift, view]

end

/-! ## Views of a session -/

namespace Scope

variable {s t : Scope} {name : String} {v : View}

/-- What is found in the frames after the first that could be changed was changed. -/
theorem findSome?_of_updateFrames {α : Type} {f : Frame → Option Frame} {g : Frame → Option α}
    {a : α} (skipped : ∀ frame, f frame = none → g frame = none)
    (written : ∀ frame changed, f frame = some changed → g changed = some a)
    {frames changed : List Frame} (h : updateFrames f frames = some changed) :
    changed.findSome? g = some a := by
  induction frames generalizing changed with
  | nil => cases h
  | cons frame frames ih =>
    rw [updateFrames] at h
    cases found : f frame with
    | some b =>
      rw [found] at h
      cases h
      rw [List.findSome?_cons, written frame b found]
    | none =>
      rw [found] at h
      obtain ⟨rest, later, rfl⟩ := Option.map_eq_some_iff.mp h
      rw [List.findSome?_cons, skipped frame found]
      exact ih later

theorem view?_of_declareView (h : s.declareView name v = .ok t) : t.view? name = some v := by
  unfold declareView at h
  dsimp only at h
  split at h
  · cases h
  · cases h
    have first : (s.innermost.views.insert name v).get? name = some v := by
      rw [NameMap.get?_insert, if_pos rfl]
    rw [view?, find?, frames, List.findSome?_cons, first]

theorem view?_of_replaceView (h : s.replaceView name v = .ok t) : t.view? name = some v := by
  rw [replaceView, update, update?] at h
  split at h
  case h_2 => cases h
  case h_1 found =>
    cases h
    split at found
    case h_2 => cases found
    case h_1 updated =>
      cases found
      refine findSome?_of_updateFrames (fun frame skipped => ?_) (fun frame changed written => ?_)
        updated
      · cases held : frame.views.get? name with
        | none => rfl
        | some _ => simp [NameMap.contains, held] at skipped
      · split at written
        · cases written
          exact (NameMap.get?_insert ..).trans (if_pos rfl)
        · cases written

end Scope

/-- What was written back to the frames of a session is what the session sees. -/
theorem Engine.scope_setScope {engine : Engine} {s : Session} (hosts : engine.Hosts s)
    {scope : Scope} (whole : s.references.length = scope.frames.length) :
    (engine.setScope s scope).scope s = scope := by
  have distinct : ((s.references.zip scope.frames).map Prod.fst).Nodup := by
    rw [List.map_fst_zip whole.le]
    exact hosts.distinct
  have frames : s.references.map (engine.setScope s scope).frame = scope.frames := by
    refine List.ext_getElem (by rw [List.length_map, whole]) fun i _ inside => ?_
    have reference : i < s.references.length := whole ▸ inside
    have written : (s.references[i], scope.frames[i]) ∈ s.references.zip scope.frames :=
      List.mem_iff_getElem.mpr ⟨i, by rw [List.length_zip, whole, min_self]; exact inside,
        List.getElem_zip⟩
    rw [List.getElem_map]
    exact frame_setFrames_of_mem distinct written
      (hosts.present _ (List.getElem_mem reference))
  obtain ⟨innermost, outer⟩ := List.cons.inj frames
  exact congrArg₂ Scope.mk innermost outer

/-- A session keeps the result of a query under a name that its innermost block does not have yet. -/
theorem Session.exec_createView {s : Session} {engine : Engine} (hosts : engine.Hosts s)
    {name text : String} {q : Query} {result : View} {t : Scope}
    (parsed : Language.parseQueries text = .ok [q])
    (ran : exec (q.run { settings := engine.settings }) (engine.scope s) = (.ok result, t))
    (free : (engine.frame s.innermost).views.contains name = false) :
    ∃ left, Run.exec (s.createView name text) engine = (.ok (), left) ∧
      (left.scope s).view? name = some result := by
  have executed : Run.exec (s.execute text) engine = (.ok [result], engine.setScope s t) := by
    rw [s.exec_execute_of_ok engine parsed, exec_evaluate, List.mapM_cons, exec_bind_ok ran]
    rfl
  have unmoved := q.run_keptBut { settings := engine.settings } (engine.scope s)
  rw [ran] at unmoved
  have whole : s.references.length = t.frames.length := by
    rw [← unmoved.length_eq, Engine.scope_frames, List.length_map]
  obtain ⟨innermost, -⟩ := List.forall₂_cons.mp unmoved
  obtain ⟨kept, declared, length⟩ : ∃ kept, t.declareView name result = .ok kept ∧
      kept.frames.length = t.frames.length :=
    ⟨_, if_neg (by rw [innermost.views]; exact Bool.eq_false_iff.mp free), rfl⟩
  have hosts' : (engine.setScope s t).Hosts s := hosts.of_length (Engine.length_setFrames ..)
  refine ⟨(engine.setScope s t).setScope s kept, ?_, ?_⟩
  · rw [createView, Run.exec_bind_ok (exec_query_of_one executed), declareView, exec_update,
      Engine.scope_setScope hosts whole, declared]
  · rw [Engine.scope_setScope hosts' (whole.trans length.symm)]
    exact Scope.view?_of_declareView declared

/-! ## The three ways -/

/-- **The three ways to read the result of a query as a table agree.** Read under the name that a
`WITH` clause gives to it, whatever other tables the clause goes on to define, as a subquery, or as
a view that a session keeps of it, the result of `q` is the table of the reference name with the
records of the result and the given names, or else the labels of the result. The columns are visible
columns of this table, numbered from 1, and nothing is left of the aliases and marks that they had.
-/
theorem derived_tables_agree {env : Env} {q : Query} {s t : Scope} {result : View} {v r : String}
    {cols : List String} (unbuilt : ∀ b ∈ env.recursive, sameIgnoringCase b.name v = false)
    (ran : exec (q.run env) s = (.ok result, t))
    (fits : cols = [] ∨ cols.length = result.header.width) :
    ((∃ after, exec (inlineTables [.mk v cols q] false env) s = (.ok after, t)) ∧
      ∀ later after u, exec (inlineTables (.mk v cols q :: later) false env) s = (.ok after, u) →
        (∀ d ∈ later, sameIgnoringCase d.name v = false) →
        ∀ w, exec ((Source.named v (some r)).load after) w = (.ok (result.derived r cols), w)) ∧
    exec ((Source.subquery q (some r) cols).load env) s = (.ok (result.derived r cols), t) ∧
    (cols = [] →
      (∀ (inside : Env) (w : Scope), inside.inlineTable? v = none → w.view? v = some result →
        exec ((Source.named v (some r)).load inside) w = (.ok (result.derived r cols), w)) ∧
      (∀ w kept : Scope, w.declareView v result = .ok kept ∨ w.replaceView v result = .ok kept →
        kept.view? v = some result) ∧
      ∀ (engine : Engine) (session : Session) (text : String),
        env = { settings := engine.settings } → s = engine.scope session →
        engine.Hosts session → Language.parseQueries text = .ok [q] →
        (engine.frame session.innermost).views.contains v = false →
        ∃ left, Run.exec (session.createView v text) engine = (.ok (), left) ∧
          (left.scope session).view? v = some result) ∧
    (result.derived r cols).records = result.records ∧
    (result.derived r cols).header.columns = (result.header.namesOr cols).mapIdx fun i name =>
      { table := r, name, aliases := [], number := i + 1, fromTable := true, joined := false,
        hidden := false, groupKey := false } := by
  refine ⟨⟨⟨_, exec_inlineTables_of_run ran fits []⟩, ?_⟩, exec_load_subquery ran fits, ?_,
    rfl, rfl⟩
  · intro later after u clause others w
    rw [exec_inlineTables_of_run ran fits] at clause
    have same : sameIgnoringCase v v = true := beq_self_eq_true _
    have known : after.inlineTable? v = some ⟨v, result.derived v cols⟩ :=
      (inlineTable?_of_inlineTables clause others).trans
        (Env.inlineTable?_withInlineTable_self same unbuilt)
    rw [Source.load, exec_loadNamed_of_inline known, View.asTable_derived]
  · rintro rfl
    refine ⟨fun inside w unknown kept => ?_, fun w kept stored => ?_, ?_⟩
    · rw [Source.load, exec_loadNamed_of_view unknown kept, View.asTable_eq_derived (.inl rfl)]
    · rcases stored with declared | replaced
      · exact Scope.view?_of_declareView declared
      · exact Scope.view?_of_replaceView replaced
    · rintro engine session text rfl rfl hosts parsed free
      exact Session.exec_createView hosts parsed ran free

/-- The query `SELECT n AS m FROM (VALUES (1), (2), (1)) AS x (n) GROUP BY n`. -/
def Query.renamedGroups : Query :=
  .mk false []
    (.select false [.mk (.column none "n") (some "m")]
      [.values [[.literal (.integer 1)], [.literal (.integer 2)], [.literal (.integer 1)]]
        (some "x") ["n"]] none [.column none "n"] none) [] none .all

/-- The alias and the group key of a result are not those of a column that is read from it. -/
theorem derived_tables_agree_renamed :
    ∃ result t, exec (Query.renamedGroups.run {}) {} = (.ok result, t) ∧
      result.header.columns.map Column.label = ["m"] ∧
      result.header.columns.map Column.groupKey = [true] ∧
      exec ((Source.subquery .renamedGroups (some "r") ["k"]).load {}) {}
        = (.ok (result.derived "r" ["k"]), t) ∧
      (result.derived "r" ["k"]).header.columns
        = [{ table := "r", name := "k", number := 1, fromTable := true }] := by
  have run : (exec (Query.renamedGroups.run {}) {}).1.toOption.map (fun v =>
      (v.header.columns.map Column.label, v.header.columns.map Column.groupKey))
        = some (["m"], [true]) := by
    decide +kernel
  obtain ⟨result, t, ran, shown⟩ := eq_ok_of_toOption_map run
  obtain ⟨labels, keys⟩ := Prod.mk.inj shown
  have one : ["k"].length = result.header.width :=
    (congrArg List.length labels).symm.trans (List.length_map _)
  obtain ⟨-, subquery, -, -, columns⟩ := derived_tables_agree (v := "v") (r := "r")
    (fun _ built => by cases built) ran (.inr one)
  exact ⟨result, t, ran, labels, keys, subquery, columns⟩

end TableQuery
