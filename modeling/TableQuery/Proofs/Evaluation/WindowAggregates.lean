import TableQuery.Proofs.Evaluation.Aggregates
import TableQuery.Proofs.Evaluation.Fields
import TableQuery.Proofs.Evaluation.ImplicitGroup
import TableQuery.Proofs.Evaluation.Partition
import TableQuery.Proofs.Evaluation.WindowCalls
import TableQuery.Proofs.Text.Upper

/-!
# Aggregates over partitions

An aggregate with `OVER (PARTITION BY …)` gives every row the value that grouping by the same columns
gives its group. Both split the rows by the same keys and evaluate the argument once for each member,
group after group. They differ in what a row is bound to: a window binds the row itself, a group
splits into rows of single values under a header in which the columns of the key are marked.
-/

namespace TableQuery

open Eval

variable {env : Env} {s t u : Scope} {v w : View} {f : Aggregate} {name : String}

/-! ## Names -/

/-- `COUNT` is known by the letters of ASCII. -/
theorem sameIgnoringCase_count (hf : Aggregate.ofName? name = some .count) :
    Text.sameIgnoringCase name "COUNT" = true :=
  Text.sameIgnoringCase_of_upper (Aggregate.upper_of_ofName? hf) (by simp; decide)

/-! ## Marked headers -/

/-- References to columns by which rows are grouped or partitioned. -/
def keyColumns (keys : List (Option String × String)) : List Expr :=
  keys.map fun key => .column key.1 key.2

namespace Header

variable {g h k : Header}

/-- Marks of group keys do not show in what a reference means. -/
theorem Stays.find?_eq (stays : h.Stays k) (width : k.width = h.width) (table : Option String)
    (name : String) : k.find? table name = h.find? table name := by
  have same : (k.indicesWhere fun c => c.isMeantBy table name)
      = h.indicesWhere fun c => c.isMeantBy table name := by
    rw [indicesWhere_eq_filter, indicesWhere_eq_filter, width]
    refine List.filter_congr fun i hi => ?_
    have inside : i < h.columns.length := List.mem_range.mp hi
    obtain ⟨d, hd, rfl | rfl⟩ := stays i _ (List.getElem?_eq_getElem inside)
    · rw [hd, List.getElem?_eq_getElem inside]
    · rw [hd, List.getElem?_eq_getElem inside]
      rfl
  rw [find?, find?, same]

theorem Stays.stored (stays : h.Stays k) (width : k.width = h.width) (hh : h.Stored) :
    k.Stored := by
  intro d hd
  obtain ⟨i, hi, rfl⟩ := List.mem_iff_getElem.mp hd
  have inside : i < h.columns.length := Nat.lt_of_lt_of_eq hi width
  obtain ⟨c, hc, marked⟩ := stays i _ (List.getElem?_eq_getElem inside)
  rw [List.getElem?_eq_getElem hi] at hc
  cases hc
  have old := hh _ (List.getElem_mem inside)
  obtain same | same := marked
  · rw [same]
    exact old
  · rw [same]
    exact old

/-- A column that is a key needs no cell of its own. -/
theorem addGroupKey_column {table : Option String} {name : String} {own : Bool}
    (hk : h.addGroupKey (.column table name) = .ok (k, own)) : own = false := by
  unfold addGroupKey at hk
  dsimp only at hk
  cases hf : h.find? table name with
  | error e =>
    rw [hf] at hk
    cases hk
  | ok i? =>
    rw [hf] at hk
    cases i? <;> cases hk <;> rfl

theorem addGroupKeys_of_columns {keys : List (Option String × String)} {owns : List Bool}
    (hk : h.addGroupKeys (keyColumns keys) = .ok (k, owns)) :
    ∀ own ∈ owns, own = false := by
  induction keys generalizing h owns with
  | nil =>
    cases hk
    intro own hown
    cases hown
  | cons key keys ih =>
    obtain ⟨g, own, rest, first, others, rfl⟩ := addGroupKeys_cons hk
    exact List.forall_mem_cons.mpr ⟨addGroupKey_column first, ih others⟩

end Header

theorem flagged_of_false {α : Type} {flags : List Bool} (h : ∀ flag ∈ flags, flag = false)
    (xs : List α) : flagged flags xs = [] := by
  rw [flagged, List.map_eq_nil_iff, List.filter_eq_nil_iff]
  intro p hp
  rw [h p.2 (List.of_mem_zip hp).2]
  exact Bool.false_ne_true

/-- If headers agree in all lookups, every part is answered alike. -/
theorem Part.answeredAs_of_lookups {h g : Header}
    (columns : ∀ table name, g.find? table name = h.find? table name)
    (computed : ∀ text, g.findComputed? text = h.findComputed? text) (p : Part) :
    p.AnsweredAs h g := by
  cases p with
  | expr e =>
    cases e with
    | column table name => exact columns table name
    | _ => exact fun _ => computed _
  | rejoin => exact fun table name => columns (some table) name

/-! ## Grouping by columns -/

theorem map_expr_operands (es : List Expr) : (operands es).map Operand.expr = es := by
  induction es with
  | nil => rfl
  | cons e es ih => rw [operands, List.map_cons, ih]

/-- Grouping by columns marks these and puts the rows of each group together. -/
theorem View.groupBy_columns {keys : List (Option String × String)}
    (h : exec (v.groupBy (operands (keyColumns keys)) env) s = (.ok w, t)) :
    ∃ values,
      exec (v.bindings.mapM fun b => evalAll (operands (keyColumns keys)) (env.bind b)) s
        = (.ok values, t) ∧
      values.length = v.records.length ∧
      KeyPartition env.clock values (groupIndices env.clock values) ∧
      v.header.Stays w.header ∧ w.header.width = v.header.width ∧
      w = { v with
        header := w.header
        records := (groupIndices env.clock values).map fun group =>
          Record.group v.header.width (group.map fun i => v.records.getD i default)
        grouped := true } := by
  obtain ⟨values, header, owns, hvalues, hheader, rfl⟩ := View.groupBy_eq_ok h
  have length := Header.addGroupKeys_length hheader
  have width := Header.addGroupKeys_width hheader
  have stays := (Header.addGroupKeys_columns hheader).1
  rw [List.length_map] at length
  rw [map_expr_operands] at hheader
  have unowned := Header.addGroupKeys_of_columns hheader
  obtain ⟨count, partition⟩ := keyPartition_of_exec hvalues
  have width : header.width = v.header.width := by
    rw [width, List.filter_eq_nil_iff.mpr fun own hown => ?_, List.length_nil, Nat.add_zero]
    rw [unowned own hown, id_eq]
    exact Bool.false_ne_true
  refine ⟨values, hvalues, count, partition, stays, width, ?_⟩
  congr 1
  refine List.map_congr_left fun group hgroup => ?_
  have bounded : ∀ i ∈ group, i < v.records.length := fun i hi => count ▸ partition.lt hgroup hi
  rw [filterMap_zipWith count bounded, width]
  refine congrArg _ (List.map_congr_left fun i _ => ?_)
  rw [keyedRow, flagged_of_false unowned]
  exact congrArg Record.mk (List.append_nil _)

/-! ## Members -/

/-- The members of a group have the values of its rows. -/
theorem Record.members_group_values {width : Nat} (hwidth : 0 < width) (rows : List Record) :
    (Record.group width rows).members =
      rows.map fun r => Record.ofValues ((List.range width).map r.value) := by
  obtain ⟨n, rfl⟩ := Nat.exists_eq_succ_of_ne_zero (Nat.ne_of_gt hwidth)
  have size : (Record.group (n + 1) rows).groupSize = rows.length := by
    simp [groupSize, group, List.range_succ_eq_map]
  refine List.ext_getElem (by simp [members, size]) fun j hj hk => ?_
  have inside : j < rows.length := by simpa using hk
  have own : (group (n + 1) rows).cells.map (fun c => c.values.getD j .null)
      = (List.range (n + 1)).map rows[j].value := by
    simp [group, inside]
  simp only [members, List.getElem_map, List.getElem_range, own]

/-- A member of a group and the row itself are alike where lookups do not see the marks of keys. -/
theorem member_alike {P : Part → Prop} {h g : Header} (answered : ∀ p, P p → p.AnsweredAs h g)
    (r : Record) (env : Env) (b : Binding) :
    Env.Alike P ((env.bind b).rebind g (.ofValues ((List.range h.width).map r.value)))
      (env.bind { header := h, record := r }) where
  settings := rfl
  inlineTables := rfl
  recursive := rfl
  bindings := by
    refine .cons (.rows answered fun i hi => ?_) (List.forall₂_same.mpr fun b _ => .refl b)
    rw [Record.value_ofValues, List.getD_eq_getElem _ _ (by simpa using hi)]
    simp

/-- An argument has the same values on the members of a group as on its rows. -/
theorem evalMembers_group {h g : Header} {e : Expr}
    (answered : ∀ p : Part, p.AnsweredAs h g) (hwidth : 0 < h.width) (rows : List Record)
    (env : Env) (b : Binding) :
    Eval.Same (fun _ => True)
      (evalMembers ⟨e, fun env => e.eval env⟩ (env.bind b) g (Record.group h.width rows).members)
      (Operand.evalEach ⟨e, fun env => e.eval env⟩ env
        (rows.map fun r => { header := h, record := r })) := by
  rw [Record.members_group_values hwidth]
  refine .mapM_related ?_
  rw [List.forall₂_map_left_iff, List.forall₂_map_right_iff, List.forall₂_same]
  intro r _
  exact e.eval_same (alike_agreement fun _ => True) (fun _ _ => trivial)
    (member_alike (fun p _ => answered p) r env b)

/-! ## One partition -/

/-- The window call of an aggregate over the whole of its partition. -/
def aggregateCall (name : String) (distinct : Bool) (argument : Expr) (partition : List Expr) :
    WindowCall where
  expr := .window name distinct [argument] partition []
  name := name
  distinct := distinct
  args := operands [argument]
  partition := operands partition
  order := []

/-- Whether `DISTINCT` shows in what an aggregate counts: it has no effect on the number of rows. -/
def Aggregate.Distinguishes (f : Aggregate) (argument : Expr) : Prop :=
  argument ≠ .allColumns ∧ f.countsLiteral argument = false

variable {e : Expr} {distinct : Bool} {partition : List Expr} {header : Header}
  {rows : List Record} {x : Value}

/-- A group counts its rows as a window does: by ones. -/
theorem countOnes (clock : Calendar.Clock) (n : Nat) :
    Aggregate.count.eval clock (List.replicate n (.integer 1)) = .ofNat n := by
  show Value.ofNat ((List.replicate n (Value.integer 1)).filter fun v => !v.isNull).length = _
  rw [List.filter_eq_self.mpr fun v hv => by rw [(List.mem_replicate.mp hv).2]; rfl,
    List.length_replicate]

/-- A wildcard stands for the rows of a group only if they are counted. -/
theorem eval_aggregate_allColumns (hf : Aggregate.ofName? name = some f) {b : Binding}
    (grouped : b.grouped = true)
    (unknown : (env.bind b).known? (.aggregate name distinct [.allColumns]) = none) :
    (Expr.aggregate name distinct [.allColumns]).eval (env.bind b) =
      if f = .count then pure (.ofNat b.record.groupSize)
      else throw (.badWildcard (Expr.aggregate name distinct [.allColumns]).text) := by
  have group : (env.bind b).group name = Except.ok b := by
    show (if b.grouped then Except.ok b else _) = _
    rw [grouped]
    rfl
  rw [Expr.eval, unknown]
  dsimp only [operands]
  unfold evalAggregate evalOverGroup countsMembers
  rw [hf, group]
  cases f <;> rfl

theorem eval_aggregate_tableColumns (hf : Aggregate.ofName? name = some f) {b : Binding}
    {table : String} (grouped : b.grouped = true)
    (unknown : (env.bind b).known? (.aggregate name distinct [.tableColumns table]) = none) :
    (Expr.aggregate name distinct [.tableColumns table]).eval (env.bind b) =
      throw (.badWildcard (Expr.aggregate name distinct [.tableColumns table]).text) := by
  have group : (env.bind b).group name = Except.ok b := by
    show (if b.grouped then Except.ok b else _) = _
    rw [grouped]
    rfl
  rw [Expr.eval, unknown]
  dsimp only [operands]
  unfold evalAggregate evalOverGroup countsMembers
  rw [hf, group]
  rfl

/-- The values over which an aggregate runs as a window, if they are found. -/
theorem exec_aggregateRoutine {members : List Binding} {flags : List Bool} {vs : List Value}
    {reduce : List Value → Value}
    (h : exec (evalFrameValues name (operands [e]) env ⟨members, flags⟩) s = (.ok vs, t)) :
    exec (aggregateRoutine (aggregateCall name distinct e partition) env
      (fun vs => .ok (reduce vs)) ⟨members, flags⟩) s
      = (.ok (vs.map fun _ => reduce (distinctIf env.clock distinct vs)), t) :=
  exec_aggregateRoutine_unsorted rfl h rfl

theorem evalFrameValues_of_other {p : Partition} {further : List Expr} (all : e ≠ .allColumns)
    (table : ∀ name, e ≠ .tableColumns name) :
    evalFrameValues name (operands (e :: further)) env p =
      Operand.evalEach ⟨e, fun env => e.eval env⟩ env p.members := by
  cases e with
  | allColumns => exact absurd rfl all
  | tableColumns name => exact absurd rfl (table name)
  | _ => rfl

/-- What an aggregate of the rows of a group gives, it gives to each of these rows as a window. -/
theorem aggregateRoutine_of_group (hf : Aggregate.ofName? name = some f)
    (plain : e.hasAggregate = false) (distinguishes : distinct = true → f.Distinguishes e)
    (stored : header.Stored) (answered : ∀ p : Part, p.AnsweredAs v.header header)
    (hwidth : 0 < v.header.width) (flags : List Bool)
    (h : exec ((Expr.aggregate name distinct [e]).eval (env.bind
      { header, record := Record.group v.header.width rows, grouped := true })) s = (.ok x, t)) :
    exec (aggregateRoutine (aggregateCall name distinct e partition) env
      (fun vs => .ok (f.eval env.clock vs))
      ⟨rows.map fun r => { header := v.header, record := r }, flags⟩) s
      = (.ok (rows.map fun _ => x), t) := by
  have unknown (call : Expr) : (env.bind
      ⟨header, Record.group v.header.width rows, true⟩).known? call = none :=
    known?_of_stored stored _
  by_cases all : e = .allColumns
  · subst all
    rw [eval_aggregate_allColumns hf rfl (unknown _)] at h
    split at h
    · rename_i counting
      subst counting
      have size : (Record.group v.header.width rows).groupSize = rows.length := by
        have members := congrArg List.length (Record.members_group_values hwidth rows)
        simpa [Record.members] using members
      have ones : exec (evalFrameValues name (operands [.allColumns]) env
          ⟨rows.map fun r => { header := v.header, record := r }, flags⟩) s
          = (.ok (List.replicate rows.length (.integer 1)), s) := by
        simp only [evalFrameValues, operands, sameIgnoringCase_count hf, List.map_map]
        rw [← List.map_const']
        rfl
      rw [exec_aggregateRoutine ones]
      cases distinct with
      | true => exact absurd rfl (distinguishes rfl).1
      | false =>
        cases h
        rw [distinctIf, if_neg Bool.false_ne_true, countOnes, size, List.map_replicate,
          List.map_const']
    · cases h
  by_cases table : ∃ name, e = .tableColumns name
  · obtain ⟨table, rfl⟩ := table
    rw [eval_aggregate_tableColumns hf rfl (unknown _)] at h
    cases h
  -- any other argument has the same values in both
  have table (name : String) : e ≠ .tableColumns name := fun same => table ⟨name, same⟩
  have reduction : (Expr.aggregate name distinct [e]).reduction? = some (f.reduction distinct e) := by
    rw [Expr.reduction?]
    · rw [hf]
      rfl
    · exact all
    · exact table
  rw [eval_reduction reduction plain rfl (unknown _)] at h
  unfold Reduction.onRows Aggregate.reduction at h
  dsimp only at h
  rw [sortOperands, pure_bind, sortMembers, if_pos List.isEmpty_nil, pure_bind] at h
  obtain ⟨vs, r, hvs, h⟩ := exec_bind_eq_ok h
  cases h
  have values := ((evalMembers_group answered hwidth rows env _).exec_eq trivial).symm.trans hvs
  have length : vs.length = rows.length := by
    rw [length_of_exec_mapM hvs, Record.members_group_values hwidth, List.length_map]
  have frame : exec (evalFrameValues name (operands [e]) env
      ⟨rows.map fun r => { header := v.header, record := r }, flags⟩) s = (.ok vs, t) := by
    rw [evalFrameValues_of_other all table]
    exact values
  have effect : (distinct && !f.countsLiteral e) = distinct := by
    cases distinct with
    | true => rw [(distinguishes rfl).2]; rfl
    | false => rfl
  rw [exec_aggregateRoutine frame, effect]
  simp only [List.map_const', length]
  rfl

/-! ## All partitions -/

/-- The value of a partition, beside the index of each of its rows. -/
def besideIndices (group : List Nat) (x : Value) : List (Nat × Value) :=
  group.map fun i => (i, x)

theorem lookup_besideIndices {group : List Nat} {i : Nat} (x : Value) :
    (besideIndices group x).lookup i = if i ∈ group then some x else none := by
  induction group with
  | nil => rfl
  | cons j group ih =>
    rw [besideIndices, List.map_cons, List.lookup_cons]
    by_cases same : i = j
    · subst same
      simp
    · rw [beq_false_of_ne same]
      simpa only [besideIndices, List.mem_cons, same, false_or] using ih

/-- Every row finds the value of its partition. -/
theorem lookup_flatten {groups : List (List Nat)} {xs : List Value} (apart : groups.flatten.Nodup)
    {k i : Nat} {group : List Nat} {x : Value} (hgroup : groups[k]? = some group)
    (hx : xs[k]? = some x) (hi : i ∈ group) :
    (groups.zipWith besideIndices xs).flatten.lookup i = some x := by
  induction groups generalizing xs k with
  | nil => cases hgroup
  | cons first groups ih =>
    rw [List.flatten_cons, List.nodup_append] at apart
    cases xs with
    | nil => cases hx
    | cons a xs =>
      rw [List.zipWith_cons_cons, List.flatten_cons, List.lookup_append, lookup_besideIndices]
      cases k with
      | zero =>
        cases hgroup
        cases hx
        rw [if_pos hi]
        rfl
      | succ k =>
        have later : i ∈ groups.flatten :=
          List.mem_flatten.mpr ⟨group, List.mem_of_getElem? hgroup, hi⟩
        have outside : i ∉ first := fun hfirst => apart.2.2 i hfirst i later rfl
        rw [if_neg outside]
        exact ih apart.2.1 hgroup hx

/-- The rows of a partition as they are bound. -/
theorem filterMap_bindings (ungrouped : v.grouped = false) {group : List Nat}
    (bounded : ∀ i ∈ group, i < v.records.length) :
    (group.filterMap fun i => v.bindings[i]?) =
      (group.map fun i => v.records.getD i default).map fun r =>
        { header := v.header, record := r } := by
  rw [List.map_map, ← List.filterMap_eq_map]
  refine List.filterMap_congr fun i hi => ?_
  rw [View.bindings, List.getElem?_map, List.getElem?_eq_getElem (bounded i hi),
    Function.comp_apply, Function.comp_apply, List.getD_eq_getElem _ _ (bounded i hi), ungrouped]
  rfl

/-- An unordered window leaves the records in their order. -/
theorem WindowCall.exec_run_unordered {call : WindowCall} (unordered : call.order = [])
    {kind : WindowKind} (hkind : exec (call.kind env) s = (.ok kind, s))
    {values : List Value}
    (hvalues : ∀ keys, exec (call.values env (call.routine env kind) v keys) s
      = (.ok values, t)) :
    Stage.exec (call.run env) v s =
      ((.ok (), v.pushColumn (.computed call.expr.text) values), t) := by
  have hkeys : exec (call.sortKeys env v) s
      = (.ok ((List.range v.records.length).map fun _ => SortKey.ofValues env.clock []), s) := by
    rw [WindowCall.sortKeys, unordered]
    rfl
  have same : (call.sorted ((List.range v.records.length).map fun _ =>
      SortKey.ofValues env.clock []) v.records).map Prod.snd = v.records := by
    rw [WindowCall.sorted, unordered, if_pos List.isEmpty_nil, List.map_snd_zip (by simp)]
  refine WindowCall.exec_run_iff.mpr ⟨kind, s, _, s, values, hkind, hkeys, ?_, ?_⟩
  · rw [same]
    exact hvalues _
  · rw [same]

theorem aggregateCall_kind (hf : Aggregate.ofName? name = some f) (s : Scope) :
    exec ((aggregateCall name distinct e partition).kind env) s
      = (.ok (.aggregate fun vs => .ok (f.eval env.clock vs)), s) :=
  (aggregateCall name distinct e partition).kind_of_aggregate hf rfl env s

/-- The values of a window that gives all rows of group `k` the value `xs[k]`. -/
theorem WindowCall.exec_values_of_groups {call : WindowCall} {routine : WindowRoutine}
    {value : List Nat → Eval Value} (ungrouped : v.grouped = false) {keys : List (List Value)}
    (hkeys : exec (v.bindings.mapM fun b => evalAll call.partition (env.bind b)) s = (.ok keys, t))
    (bounded : ∀ group ∈ groupIndices env.clock keys, ∀ i ∈ group, i < v.records.length)
    (each : ∀ group ∈ groupIndices env.clock keys, ∀ (flags : List Bool) (s t : Scope) (x : Value),
      exec (value group) s = (.ok x, t) → exec (routine ⟨(group.map fun i =>
        v.records.getD i default).map fun r => { header := v.header, record := r }, flags⟩) s =
          (.ok (group.map fun _ => x), t))
    {xs : List Value} (hxs : exec ((groupIndices env.clock keys).mapM value) t = (.ok xs, u))
    (sortKeys : List (List SortKey)) :
    exec (call.values env routine v sortKeys) s =
      (.ok (scatter v.records.length
        ((groupIndices env.clock keys).zipWith besideIndices xs).flatten), u) := by
  have pairs : exec ((groupIndices env.clock keys).mapM fun indices => do
      let members := indices.filterMap fun i => v.bindings[i]?
      let flags := peers (indices.map fun i => sortKeys.getD i [])
      return indices.zip (← routine ⟨members, flags⟩)) t
      = (.ok ((groupIndices env.clock keys).zipWith besideIndices xs), u) := by
    refine exec_mapM_of_each (fun group hgroup s x t hx => ?_) hxs
    dsimp only
    rw [filterMap_bindings ungrouped (bounded group hgroup),
      exec_bind_ok (each group hgroup _ s t x hx)]
    have beside : group.zip (group.map fun _ => x) = besideIndices group x := by
      simpa [besideIndices] using List.zip_map' (f := id) (g := fun _ => x) (l := group)
    exact congrArg (fun pairs => (Except.ok pairs, t)) beside
  rw [WindowCall.values, exec_bind_ok hkeys]
  exact exec_bind_ok pairs _

/-- The values of the window, if the aggregate has the value `xs[k]` for the rows of group `k`. -/
theorem exec_values_of_groups (hf : Aggregate.ofName? name = some f)
    (plain : e.hasAggregate = false) (distinguishes : distinct = true → f.Distinguishes e)
    (ungrouped : v.grouped = false) (hwidth : 0 < v.header.width) (stored : header.Stored)
    (answered : ∀ p : Part, p.AnsweredAs v.header header) {keys : List (List Value)}
    (hkeys : exec (v.bindings.mapM fun b => evalAll (operands partition) (env.bind b)) s
      = (.ok keys, t))
    (bounded : ∀ group ∈ groupIndices env.clock keys, ∀ i ∈ group, i < v.records.length)
    {xs : List Value}
    (hxs : exec ((groupIndices env.clock keys).mapM fun group =>
      (Expr.aggregate name distinct [e]).eval (env.bind
        { header
          record := Record.group v.header.width (group.map fun i => v.records.getD i default)
          grouped := true })) t = (.ok xs, u)) (sortKeys : List (List SortKey)) :
    exec ((aggregateCall name distinct e partition).values env
      ((aggregateCall name distinct e partition).routine env
        (.aggregate fun vs => .ok (f.eval env.clock vs))) v sortKeys) s =
      (.ok (scatter v.records.length
        ((groupIndices env.clock keys).zipWith besideIndices xs).flatten), u) := by
  refine WindowCall.exec_values_of_groups ungrouped hkeys bounded
    (fun group _ flags s t x hx => ?_) hxs sortKeys
  refine (aggregateRoutine_of_group hf plain distinguishes stored answered hwidth flags hx).trans ?_
  rw [List.map_map]
  rfl

/-! ## Select lists -/

theorem text_window_ne_empty (name : String) (distinct : Bool) (args partition : List Expr)
    (order : List OrderItem) :
    (Expr.window name distinct args partition order).text.isEmpty = false := by
  rw [Expr.text]
  simp

theorem listWindows_keyColumns (keys : List (Option String × String)) :
    listWindows (keyColumns keys) = [] := by
  induction keys with
  | nil => rfl
  | cons key keys ih => exact ih

theorem isAggregate_keyColumns (keys : List (Option String × String)) :
    (nodesOfList (keyColumns keys)).any Expr.isAggregate = false := by
  induction keys with
  | nil => rfl
  | cons key keys ih => exact ih

/-- A window call without sort keys. -/
def unorderedCall (name : String) (distinct : Bool) (args partition : List Expr) : WindowCall where
  expr := .window name distinct args partition []
  name := name
  distinct := distinct
  args := operands args
  partition := operands partition
  order := []

/-- A select list of one window call adds the column of the call and selects it. -/
theorem exec_select_unorderedCall {args : List Expr} (aliasName : Option String)
    (plain : (nodesOfList args).any Expr.isAggregate = false) (windowless : listWindows args = [])
    (plainKeys : (nodesOfList partition).any Expr.isAggregate = false)
    (windowlessKeys : listWindows partition = []) (stored : v.header.Stored) {values : List Value}
    (hrun : Stage.exec ((unorderedCall name distinct args partition).run env) v s
      = ((.ok (), v.pushColumn (.computed (Expr.window name distinct args partition []).text)
        values), t)) :
    Stage.exec (select (selectItems [.mk (.window name distinct args partition []) aliasName]) env) v
      s = ((.ok (), { (v.pushColumn (.computed (Expr.window name distinct args partition []).text)
        values).withAlias v.header.width aliasName with selected := some [v.header.width] }), t) := by
  have calls : (Expr.window name distinct args partition []).windowCalls
      = [unorderedCall name distinct args partition] := by
    rw [Expr.windowCalls, windowless, windowlessKeys]
    rfl
  have unaggregated : (Expr.window name distinct args partition []).hasAggregate = false := by
    rw [Expr.hasAggregate, Expr.nodes]
    simp [nodesOfOrder, plain, plainKeys, Expr.isAggregate]
  have kept : v.groupFor (selectItems [.mk (.window name distinct args partition []) aliasName])
      = v := by
    have none : aggregates (selectItems [.mk (.window name distinct args partition []) aliasName])
        = false := by
      simp [aggregates, selectItems, unaggregated]
    rw [View.groupFor, none, Bool.and_false]
    rfl
  refine exec_select_of_resolve kept ?_
  have windows : Stage.exec (runWindows [unorderedCall name distinct args partition] env) v s
      = ((.ok (), v.pushColumn (.computed (Expr.window name distinct args partition []).text)
        values), t) := by
    have missing : (v.header.findComputed? (unorderedCall name distinct args
        partition).expr.text).isNone = true := by
      rw [stored.findComputed?]
      rfl
    rw [runWindows]
    show Stage.exec (_ >>= fun _ => pure ()) v s = _
    rw [bind_assoc, Stage.exec_bind, Stage.exec_view]
    dsimp only [Stage.execThen]
    rw [if_pos missing, Stage.exec_bind_ok hrun]
    rfl
  have found : (v.pushColumn (.computed (Expr.window name distinct args partition []).text)
      values).header.findComputed? (Expr.window name distinct args partition []).text
      = some v.header.width := by
    rw [View.pushColumn, Header.findComputed?_push, stored.findComputed?, text_window_ne_empty,
      beq_self_eq_true]
    rfl
  rw [resolveItems, selectItems, List.flatMap_cons, calls]
  show Stage.exec (runWindows ([unorderedCall name distinct args partition] ++ []) env >>= _) v s = _
  rw [List.append_nil, Stage.exec_bind_ok windows, List.mapM_cons, bind_assoc,
    Stage.exec_bind_ok (SelectItem.exec_resolve_found (.inl rfl) found)]
  rfl

/-- A select list of one aggregate over partitions. -/
theorem exec_select_aggregateCall (aliasName : Option String) (plain : e.hasAggregate = false)
    (windowless : e.windowCalls = [])
    (plainKeys : (nodesOfList partition).any Expr.isAggregate = false)
    (windowlessKeys : listWindows partition = []) (stored : v.header.Stored) {values : List Value}
    (hrun : Stage.exec ((aggregateCall name distinct e partition).run env) v s
      = ((.ok (), v.pushColumn (.computed (Expr.window name distinct [e] partition []).text)
        values), t)) :
    Stage.exec (select (selectItems [.mk (.window name distinct [e] partition []) aliasName]) env) v
      s = ((.ok (), { (v.pushColumn (.computed (Expr.window name distinct [e] partition []).text)
        values).withAlias v.header.width aliasName with selected := some [v.header.width] }), t) := by
  have nodes : (nodesOfList [e]).any Expr.isAggregate = false := by
    rw [nodesOfList, nodesOfList, List.append_nil]
    exact plain
  have calls : listWindows [e] = [] := by rw [listWindows, listWindows, windowless, List.append_nil]
  exact exec_select_unorderedCall aliasName nodes calls plainKeys windowlessKeys stored hrun

/-- Window aggregates agree with grouped aggregates. Where grouping by columns and then selecting an
aggregate succeeds, the aggregate as a window over the partitions by these columns succeeds, too. It
splits the rows by the same keys, keeps them in their order, and gives every row of a group the value
that the group has. -/
theorem window_aggregates_agree {keys : List (Option String × String)}
    {groupAlias : Option String} (windowAlias : Option String) {grouped result : View}
    (hf : Aggregate.ofName? name = some f) (plain : e.hasAggregate = false)
    (windowless : e.windowCalls = []) (distinguishes : distinct = true → f.Distinguishes e)
    (ungrouped : v.grouped = false) (rectangular : v.Rectangular) (hwidth : 0 < v.header.width)
    (stored : v.header.Stored)
    (hgroup : exec (v.groupBy (operands (keyColumns keys)) env) s = (.ok grouped, t))
    (hselect : exec ((select (selectItems [.mk (.aggregate name distinct [e]) groupAlias])
      env).runOn grouped) t = (.ok result, u)) :
    ∃ keyValues windowed,
      exec (v.bindings.mapM fun b => evalAll (operands (keyColumns keys)) (env.bind b)) s
        = (.ok keyValues, t) ∧
      keyValues.length = v.records.length ∧
      KeyPartition env.clock keyValues (groupIndices env.clock keyValues) ∧
      grouped.records = (groupIndices env.clock keyValues).map (fun group =>
        Record.group v.header.width (group.map fun i => v.records.getD i default)) ∧
      exec ((select (selectItems [.mk (.window name distinct [e] (keyColumns keys) [])
        windowAlias]) env).runOn v) s = (.ok windowed, u) ∧
      windowed.records.map (fun r => r.take v.header.width) = v.records ∧
      ∀ (k : Nat) (group : List Nat), (groupIndices env.clock keyValues)[k]? = some group →
        ∃ x, result.fix.rows[k]? = some [x] ∧ ∀ i ∈ group, windowed.fix.rows[i]? = some [x] := by
  obtain ⟨keyValues, hkeys, count, partition, stays, width, hw⟩ := View.groupBy_columns hgroup
  have markedStored := stays.stored width stored
  have answered : ∀ p : Part, p.AnsweredAs v.header grouped.header :=
    Part.answeredAs_of_lookups (stays.find?_eq width) fun text => by
      rw [markedStored.findComputed?, stored.findComputed?]
  have isGrouped : grouped.grouped = true := by rw [hw]
  have bounded : ∀ group ∈ groupIndices env.clock keyValues, ∀ i ∈ group,
      i < v.records.length := by
    intro group hgroup i hi
    have mem := partition.perm.subset (List.mem_flatten.mpr ⟨group, hgroup, hi⟩)
    exact count ▸ List.mem_range.mp mem
  -- the groups evaluate the call one after the other
  have kept : grouped.groupFor (selectItems [.mk (.aggregate name distinct [e]) groupAlias])
      = grouped := by
    rw [View.groupFor, isGrouped]
    rfl
  have calls : (Expr.aggregate name distinct [e]).windowCalls = [] := by
    rw [Expr.windowCalls, listWindows, windowless]
    rfl
  obtain ⟨xs, hxs, hrows⟩ := select_single_eq_ok (.inl rfl) calls (markedStored.findComputed? _)
    (View.groupBy_rectangular hgroup) kept (.inl isGrouped) (Stage.exec_runOn_eq_ok hselect)
  have records : grouped.records = (groupIndices env.clock keyValues).map (fun group =>
      Record.group v.header.width (group.map fun i => v.records.getD i default)) := by rw [hw]
  rw [View.bindings, isGrouped, records, List.map_map, Operand.evalEach, List.mapM_map] at hxs
  -- so do the partitions of the window
  have values := exec_values_of_groups hf plain distinguishes ungrouped hwidth markedStored
    answered hkeys bounded hxs
  have run := WindowCall.exec_run_unordered (v := v) rfl (aggregateCall_kind hf s) values
  have selected := exec_select_aggregateCall windowAlias plain windowless
    (isAggregate_keyColumns keys) (listWindows_keyColumns keys) stored run
  have length := length_scatter v.records.length
    ((groupIndices env.clock keyValues).zipWith besideIndices xs).flatten
  have made := Stage.exec_runOn (select (selectItems [.mk (.window name distinct [e]
    (keyColumns keys) []) windowAlias]) env) v s
  rw [selected] at made
  refine ⟨keyValues, _, hkeys, count, partition, records, made, ?_, ?_⟩
  · exact View.take_pushColumn rectangular (.computed (Expr.window name distinct [e]
      (keyColumns keys) []).text) length
  · intro k group hk
    have same : xs.length = (groupIndices env.clock keyValues).length := length_of_exec_mapM hxs
    have inside : k < xs.length := same ▸ (List.getElem?_eq_some_iff.mp hk).1
    have apart : (groupIndices env.clock keyValues).flatten.Nodup :=
      partition.perm.nodup_iff.mpr List.nodup_range
    refine ⟨xs[k], ?_, fun i hi => ?_⟩
    · rw [hrows, List.getElem?_map, List.getElem?_eq_getElem inside]
      rfl
    · have value := getElem?_scatter (bounded group (List.mem_of_getElem? hk) i hi)
        (lookup_flatten apart hk (List.getElem?_eq_getElem inside) hi)
      rw [View.rows_fix rfl]
      have column := View.values_pushColumn rectangular (.computed (Expr.window name distinct [e]
        (keyColumns keys) []).text) length
      rw [← column, List.getElem?_map] at value
      obtain ⟨r, hr, hx⟩ := Option.map_eq_some_iff.mp value
      rw [List.getElem?_map]
      refine (congrArg (Option.map _) hr).trans ?_
      rw [← hx]
      rfl

/-- `COUNT(DISTINCT x)` by `k`: the group of the first and the third row holds two values and that of
the second row holds one. -/
theorem window_aggregates_agree_counted :
    let v : View := .ofRows (.ofNames "t" ["k", "x"])
      [[.integer 1, .integer 5], [.integer 2, .integer 5], [.integer 1, .integer 6]]
    let window : Expr := .window "count" true [.column none "x"] (keyColumns [(none, "k")]) []
    ∃ windowed, exec ((select (selectItems [.mk window none]) {}).runOn v) {} = (.ok windowed, {}) ∧
      windowed.fix.rows[0]? = some [.integer 2] ∧ windowed.fix.rows[1]? = some [.integer 1] ∧
      windowed.fix.rows[2]? = some [.integer 2] := by
  intro v window
  have rectangular : v.Rectangular := View.ofRows_rectangular (by decide)
  let header : Header := .modify (.ofNames "t" ["k", "x"]) 0 fun c => { c with groupKey := true }
  let grouped : View :=
    { header
      records := [⟨[⟨[.integer 1, .integer 1]⟩, ⟨[.integer 5, .integer 6]⟩]⟩,
        ⟨[⟨[.integer 2]⟩, ⟨[.integer 5]⟩]⟩]
      grouped := true }
  let result : View :=
    { grouped with
      header := header.push (.computed "count(DISTINCT x)")
      records := grouped.records.zipWith (fun r x => r.push (.ofValue x)) [.integer 2, .integer 1]
      selected := some [2] }
  have hgroup : exec (v.groupBy (operands (keyColumns [(none, "k")])) {}) {} = (.ok grouped, {}) :=
    by rfl
  have hselect : exec ((select (selectItems [.mk (.aggregate "count" true [.column none "x"]) none])
      {}).runOn grouped) {} = (.ok result, {}) := by rfl
  have agree := window_aggregates_agree (f := .count) (e := .column none "x") none rfl rfl rfl
    (fun _ => ⟨nofun, rfl⟩) rfl rectangular (by decide) (Header.stored_ofNames _ _)
    hgroup hselect
  obtain ⟨keyValues, windowed, hkeys, -, -, -, hwindow, -, values⟩ := agree
  have computed : [[.integer 1], [.integer 2], [.integer 1]] = keyValues :=
    Except.ok.inj (congrArg Prod.fst hkeys)
  subst computed
  obtain ⟨x, hx, first⟩ := values 0 [0, 2] rfl
  obtain ⟨y, hy, second⟩ := values 1 [1] rfl
  have two : Value.integer 2 = x := List.head_eq_of_cons_eq (Option.some.inj hx)
  have one : Value.integer 1 = y := List.head_eq_of_cons_eq (Option.some.inj hy)
  subst two one
  exact ⟨windowed, hwindow, first 0 (by simp), second 1 (by simp), first 2 (by simp)⟩

end TableQuery
