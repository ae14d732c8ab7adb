import TableQuery.Proofs.Evaluation.WindowAggregates
import TableQuery.Proofs.Join.PairedColumns
import TableQuery.Proofs.Syntax.InnerOrder
import TableQuery.Proofs.Syntax.RoundTrip
import TableQuery.Proofs.Table.Sorting

/-!
# Texts that are joined over partitions

A call that joins texts has sort keys of its own. Over a group it sorts the rows by these before it
joins their texts. As a window it is parsed without them, and joins the texts of a partition in the
order of the records.
-/

namespace TableQuery

open Eval TableQuery.Language TableQuery.Language.Grammar

variable {env : Env} {s t u : Scope} {v w : View} {name : String} {e : Expr}
  {order : List OrderItem}

/-! ## Values and sort keys of rows -/

/-- The expression has a value for each record of the view and leaves the scope alone. -/
def Expr.Gives (e : Expr) (env : Env) (v : View) (s : Scope) (value : Record → Value) : Prop :=
  ∀ r ∈ v.records,
    exec (e.eval (env.bind { header := v.header, record := r })) s = (.ok (value r), s)

/-- The sort keys have values for each record of the view and leave the scope alone. -/
def KeysGive (order : List OrderItem) (env : Env) (v : View) (s : Scope)
    (keys : Record → List SortKey) : Prop :=
  ∀ r ∈ v.records, exec (evalSortKeys (sortOperands order)
    (env.bind { header := v.header, record := r })) s = (.ok (keys r), s)

/-- The rows in the order of their sort keys. -/
def rowsInOrder (order : List OrderItem) (keys : Record → List SortKey) (rows : List Record) :
    List Record :=
  stableSort (fun a b => SortKey.tupleLess (keyOrders (sortOperands order)) (keys a) (keys b)) rows

/-- The texts of rows, joined in their order. -/
def joinedText (clock : Calendar.Clock) (separator : String) (distinct : Bool)
    (value : Record → Value) (rows : List Record) : Value :=
  joinTexts separator (distinctIf clock distinct (rows.map value))

/-- The separator of a call that joins texts. -/
def separatorText (name : String) (separator : Option String) : String :=
  separator.getD (defaultSeparator name)

/-- The call that joins the texts of a group. -/
abbrev listCall (name : String) (distinct : Bool) (e : Expr) (separator : Option String)
    (order : List OrderItem) : Expr :=
  .listAggregate name distinct (joinedArguments e separator) order

/-- The call that joins the texts of a partition. -/
abbrev listWindow (name : String) (distinct : Bool) (e : Expr) (separator : Option String)
    (partition : List Expr) : Expr :=
  .window name distinct (joinedArguments e separator) partition []

/-! ## The columns of the key -/

section Keys

variable {keys : List (Option String × String)} {h : Header}

/-- References to columns have values in every row. -/
theorem exec_keyColumns (r : Record)
    (found : ∀ key ∈ keys, ∃ i, h.find? key.1 key.2 = .ok (some i)) :
    ∃ values, ∀ s, exec (evalAll (operands (keyColumns keys))
      (env.bind { header := h, record := r })) s = (.ok values, s) := by
  induction keys with
  | nil => exact ⟨[], fun s => rfl⟩
  | cons key keys ih =>
    obtain ⟨i, hi⟩ := found key List.mem_cons_self
    obtain ⟨values, hvalues⟩ := ih fun key mem => found key (List.mem_cons_of_mem _ mem)
    refine ⟨r.value i :: values, fun s => ?_⟩
    show exec ((_ :: operands (keyColumns keys)).mapM _) s = _
    rw [List.mapM_cons, exec_bind_ok (exec_column hi s)]
    exact exec_bind_ok (hvalues s) _

/-- Columns that are found can be keys. -/
theorem Header.addGroupKeys_of_found
    (found : ∀ key ∈ keys, ∃ i, h.find? key.1 key.2 = .ok (some i)) :
    ∃ result, h.addGroupKeys (keyColumns keys) = .ok result := by
  induction keys generalizing h with
  | nil => exact ⟨_, rfl⟩
  | cons key keys ih =>
    obtain ⟨i, hi⟩ := found key List.mem_cons_self
    let marked : Header := h.modify i fun c => { c with groupKey := true }
    have first : h.addGroupKey (.column key.1 key.2) = .ok (marked, false) := by
      rw [addGroupKey, hi]
      rfl
    have later : ∀ key ∈ keys, ∃ j, marked.find? key.1 key.2 = .ok (some j) := by
      intro key mem
      rw [(h.stays_mark i).find?_eq (width_modify ..)]
      exact found key (List.mem_cons_of_mem _ mem)
    obtain ⟨result, rest⟩ := ih later
    refine ⟨(result.1, false :: result.2), ?_⟩
    show h.addGroupKeys (.column key.1 key.2 :: keyColumns keys) = _
    rw [addGroupKeys, first]
    dsimp only [bind, Except.bind]
    rw [rest]
    rfl

/-- Rows can be grouped by columns. -/
theorem View.exec_groupBy_of_found (env : Env) (ungrouped : v.grouped = false)
    (found : ∀ key ∈ keys, ∃ i, v.header.find? key.1 key.2 = .ok (some i)) (s : Scope) :
    ∃ w, exec (v.groupBy (operands (keyColumns keys)) env) s = (.ok w, s) := by
  have each : ∀ b ∈ v.bindings, ∃ values, ∀ s, exec (evalAll (operands (keyColumns keys))
      (env.bind b)) s = (.ok values, s) := by
    intro b hb
    obtain ⟨r, -, rfl⟩ := List.mem_map.mp hb
    rw [ungrouped]
    exact exec_keyColumns r found
  choose! values hvalues using each
  obtain ⟨⟨header, owns⟩, hheader⟩ := Header.addGroupKeys_of_found found
  have all := exec_mapM_of_ok fun b hb => hvalues b hb s
  rw [View.groupBy, exec_bind_ok all, map_expr_operands, hheader]
  exact ⟨_, rfl⟩

end Keys

/-! ## Members of a group -/

/-- A row as a member of a group has it. -/
def plainRow (width : Nat) (r : Record) : Record :=
  .ofValues ((List.range width).map r.value)

section Members

variable {header : Header} {rows : List Record} {value : Record → Value}
  {keys : Record → List SortKey}

theorem Expr.Gives.not_wildcard (he : e.Gives env v s value) {r : Record} (hr : r ∈ v.records) :
    e ≠ .allColumns ∧ ∀ table, e ≠ .tableColumns table := by
  have given := he r hr
  constructor
  · rintro rfl
    rw [Expr.eval] at given
    cases given
  · rintro table rfl
    rw [Expr.eval] at given
    cases given

/-- The values of an expression on rows of the view. -/
theorem Expr.Gives.exec_evalEach (he : e.Gives env v s value) (sub : rows ⊆ v.records) :
    exec (Operand.evalEach ⟨e, fun env => e.eval env⟩ env
      (rows.map fun r => { header := v.header, record := r })) s = (.ok (rows.map value), s) := by
  rw [Operand.evalEach, List.mapM_map]
  exact exec_mapM_of_ok fun r hr => he r (sub hr)

/-- Without sort keys the rows stay in their order. -/
theorem KeysGive.rowsInOrder_of_nil (hk : KeysGive [] env v s keys) (sub : rows ⊆ v.records) :
    rowsInOrder [] keys rows = rows := by
  refine stableSort_of_pairwise (List.pairwise_of_forall_mem_list fun a _ b hb => ?_)
  have given : keys b = [] := (Except.ok.inj (congrArg Prod.fst (hk b (sub hb)))).symm
  show SortKey.tupleLess _ (keys b) (keys a) = false
  rw [given]
  rfl

variable (answered : ∀ p : Part, p.AnsweredAs v.header header) (b : Binding)

include answered

/-- On the members of a group an expression has the values that it has on its rows. -/
theorem Expr.Gives.exec_evalMembers (he : e.Gives env v s value) (sub : rows ⊆ v.records) :
    exec (evalMembers ⟨e, fun env => e.eval env⟩ (env.bind b) header
      (rows.map (plainRow v.header.width))) s = (.ok (rows.map value), s) := by
  rw [evalMembers, List.mapM_map]
  refine exec_mapM_of_ok fun r hr => ?_
  have same := e.eval_same (alike_agreement fun _ => True) (fun _ _ => trivial)
    (member_alike (fun p _ => answered p) r env b)
  exact (same.exec_eq trivial).trans (he r (sub hr))

/-- The members of a group in the order of their sort keys. -/
theorem KeysGive.exec_sortMembers (hk : KeysGive order env v s keys) (sub : rows ⊆ v.records) :
    exec (sortMembers (sortOperands order) (env.bind b) header
      (rows.map (plainRow v.header.width))) s =
        (.ok ((rowsInOrder order keys rows).map (plainRow v.header.width)), s) := by
  rcases order with _ | ⟨item, items⟩
  · rw [hk.rowsInOrder_of_nil sub]
    rfl
  have ordered : (sortOperands (item :: items)).isEmpty = false := by
    cases item
    rfl
  have evaluated : exec ((rows.map (plainRow v.header.width)).mapM fun row =>
      evalSortKeys (sortOperands (item :: items)) ((env.bind b).rebind header row)) s =
        (.ok (rows.map keys), s) := by
    rw [List.mapM_map]
    refine exec_mapM_of_ok fun r hr => ?_
    have A := alike_agreement fun _ => True
    have same := evalSortKeys_same A (sortOperands_agree A (item :: items) fun _ _ => trivial)
      (member_alike (fun p _ => answered p) r env b)
    exact (same.exec_eq trivial).trans (hk r (sub hr))
  -- the members are sorted as their rows are, because they have the same keys
  have related : List.Forall₂ (fun (a : List SortKey × Record) r =>
      a = (keys r, plainRow v.header.width r))
      ((rows.map keys).zip (rows.map (plainRow v.header.width))) rows := by
    rw [List.zip_map', List.forall₂_map_left_iff, List.forall₂_same]
    exact fun r _ => rfl
  have sorted : List.Forall₂ _ (sortByKeys (keyOrders (sortOperands (item :: items))) _)
      (rowsInOrder (item :: items) keys rows) :=
    stableSort_forall₂ (fun a b c d hac hbd => by rw [hac, hbd]) related
  have rows_eq : (sortByKeys (keyOrders (sortOperands (item :: items)))
      ((rows.map keys).zip (rows.map (plainRow v.header.width)))).map Prod.snd =
        (rowsInOrder (item :: items) keys rows).map (plainRow v.header.width) := by
    rw [← List.forall₂_eq_eq_eq, List.forall₂_map_left_iff, List.forall₂_map_right_iff]
    exact sorted.imp fun a r h => by rw [h]
  rw [sortMembers, ordered, if_neg Bool.false_ne_true, exec_bind_ok evaluated]
  exact congrArg (fun rows => (Except.ok rows, s)) rows_eq

end Members

/-! ## The text of a group -/

section Group

variable {distinct : Bool} {separator : Option String} {header : Header} {rows : List Record}
  {value : Record → Value} {keys : Record → List SortKey}

theorem rowsInOrder_subset (order : List OrderItem) (keys : Record → List SortKey)
    (rows : List Record) : rowsInOrder order keys rows ⊆ rows :=
  (stableSort_perm _ rows).subset

theorem exec_evalSeparator (name : String) (separator : Option String) (env : Env) (s : Scope) :
    exec (evalSeparator name (operands (separator.map fun text => Expr.literal (.text text)).toList)
      env) s = (.ok (separatorText name separator), s) := by
  cases separator with
  | none => rfl
  | some text =>
    have value : Expr.eval (.literal (.text text)) env = pure (.text text) := by
      simp only [Expr.eval, Env.known?]
      rfl
    show exec (Expr.eval (.literal (.text text)) env >>= _) s = _
    rw [value]
    rfl

/-- Over a group the call joins the texts of the rows in the order of the sort keys. -/
theorem exec_listAggregate_group (he : e.Gives env v s value) (hk : KeysGive order env v s keys)
    (plain : e.hasAggregate = false) (hwidth : 0 < v.header.width) (stored : header.Stored)
    (answered : ∀ p : Part, p.AnsweredAs v.header header) (sub : rows ⊆ v.records) :
    exec ((listCall name distinct e separator order).eval (env.bind
      { header, record := Record.group v.header.width rows, grouped := true })) s =
        (.ok (joinedText env.clock (separatorText name separator) distinct value
          (rowsInOrder order keys rows)), s) := by
  have reduction : (listCall name distinct e separator order).reduction? =
      some (joinReduction name distinct e
        (separator.map fun text => Expr.literal (.text text)).toList order) := by
    cases separator <;> rfl
  rw [eval_reduction reduction plain rfl (known?_of_stored stored _)]
  unfold Reduction.onRows joinReduction
  dsimp only
  rw [bind_assoc, exec_bind_ok (exec_evalSeparator ..), pure_bind,
    Record.members_group_values hwidth]
  have sorted := hk.exec_sortMembers answered
    { header, record := Record.group v.header.width rows, grouped := true } sub
  have values := he.exec_evalMembers answered
    { header, record := Record.group v.header.width rows, grouped := true }
    (List.Subset.trans (rowsInOrder_subset order keys rows) sub)
  exact (exec_bind_ok sorted _).trans (exec_bind_ok values _)

end Group

/-! ## The text of a partition -/

/-- The text of an expression over rows, joined in their order. -/
def joinRows (separator : String) (distinct : Bool) (e : Expr) (env : Env) (header : Header)
    (rows : List Record) : Eval Value := do
  let vs ← Operand.evalEach ⟨e, fun env => e.eval env⟩ env
    (rows.map fun r => { header, record := r })
  return joinTexts separator (distinctIf env.clock distinct vs)

/-- For each row the text of the group that it is in, joined in the order of the records. -/
def groupTexts (clock : Calendar.Clock) (separator : String) (distinct : Bool)
    (value : Record → Value) (records : List Record) (groups : List (List Nat)) : List Value :=
  let text (group : List Nat) : Value :=
    joinedText clock separator distinct value (group.map fun i => records.getD i default)
  scatter records.length (groups.zipWith besideIndices (groups.map text)).flatten

section Window

variable {distinct : Bool} {separator : Option String} {partition : List Expr} {rows : List Record}
  {value : Record → Value}

theorem Expr.Gives.exec_joinRows (he : e.Gives env v s value) (sub : rows ⊆ v.records)
    (separator : String) (distinct : Bool) :
    exec (joinRows separator distinct e env v.header rows) s =
      (.ok (joinedText env.clock separator distinct value rows), s) :=
  exec_bind_ok (he.exec_evalEach sub) _

/-- As a window, the call reduces the values of its argument. -/
theorem exec_listCall_kind (joins : joiningNames.contains name = true) (s : Scope) :
    exec ((unorderedCall name distinct (joinedArguments e separator) partition).kind env) s =
      (.ok (.aggregate fun vs => .ok (joinTexts (separatorText name separator) vs)), s) := by
  have names : name = "LISTAGG" ∨ name = "GROUP_CONCAT" := by
    simpa [joiningNames] using joins
  have unlisted : WindowFunction.ofName? name = none ∧ Aggregate.ofName? name = none := by
    rcases names with rfl | rfl <;> exact ⟨by decide, by decide⟩
  have upper : Text.upper name = name := by
    rcases names with rfl | rfl <;> decide +kernel
  have known : (name == "LISTAGG" || name == "GROUP_CONCAT") = true := by
    simpa using names
  have reducer : exec (frameReducer name (operands (joinedArguments e separator)) env) s =
      (.ok fun vs => .ok (joinTexts (separatorText name separator) vs), s) := by
    unfold frameReducer
    rw [unlisted.2]
    dsimp only
    rw [upper, if_pos known]
    cases separator with
    | none => rfl
    | some text => rfl
  unfold WindowCall.kind unorderedCall
  rw [unlisted.1]
  exact exec_bind_ok reducer _

/-- As a window, the call gives all rows of a partition the text that is joined in their order. -/
theorem exec_listCall_routine (all : e ≠ .allColumns) (table : ∀ table, e ≠ .tableColumns table)
    (flags : List Bool) {x : Value}
    (h : exec (joinRows (separatorText name separator) distinct e env v.header rows) s
      = (.ok x, t)) :
    exec (aggregateRoutine (unorderedCall name distinct (joinedArguments e separator) partition) env
      (fun vs => .ok (joinTexts (separatorText name separator) vs))
      ⟨rows.map fun r => { header := v.header, record := r }, flags⟩) s =
        (.ok (rows.map fun _ => x), t) := by
  obtain ⟨vs, u, hvs, h⟩ := exec_bind_eq_ok h
  cases h
  have frame : exec (evalFrameValues name (operands (joinedArguments e separator)) env
      ⟨rows.map fun r => { header := v.header, record := r }, flags⟩) s = (.ok vs, t) := by
    rw [joinedArguments, evalFrameValues_of_other all table]
    exact hvs
  have length : vs.length = rows.length := by rw [length_of_exec_mapM hvs, List.length_map]
  rw [exec_aggregateRoutine_unsorted rfl frame rfl, List.map_const', List.map_const', length]
  rfl

theorem getD_records_subset {group : List Nat} (bounded : ∀ i ∈ group, i < v.records.length) :
    (group.map fun i => v.records.getD i default) ⊆ v.records := by
  intro r hr
  obtain ⟨i, hi, rfl⟩ := List.mem_map.mp hr
  rw [List.getD_eq_getElem _ _ (bounded i hi)]
  exact List.getElem_mem _

/-- As a window, the call adds a column with the text of each row's partition. -/
theorem exec_listCall_run (distinct : Bool) (separator : Option String)
    (joins : joiningNames.contains name = true) (he : e.Gives env v s value)
    (ungrouped : v.grouped = false) {keyValues : List (List Value)}
    (hkeys : exec (v.bindings.mapM fun b => evalAll (operands partition) (env.bind b)) s
      = (.ok keyValues, s)) :
    Stage.exec ((unorderedCall name distinct (joinedArguments e separator) partition).run env) v s =
      ((.ok (), v.pushColumn (.computed (listWindow name distinct e separator partition).text)
        (groupTexts env.clock (separatorText name separator) distinct value v.records
          (groupIndices env.clock keyValues))), s) := by
  obtain ⟨count, parted⟩ := View.keyPartition_of_exec hkeys
  have sub : ∀ group ∈ groupIndices env.clock keyValues,
      (group.map fun i => v.records.getD i default) ⊆ v.records := fun group hgroup =>
    getD_records_subset fun i hi => count ▸ parted.lt hgroup hi
  have joined := exec_mapM_of_ok fun group hgroup =>
    he.exec_joinRows (sub group hgroup) (separatorText name separator) distinct
  refine WindowCall.exec_run_unordered rfl (exec_listCall_kind joins s) fun sortKeys => ?_
  refine WindowCall.exec_values_of_groups ungrouped hkeys
    (fun group hgroup i hi => count ▸ parted.lt hgroup hi) (fun group hgroup flags s t x hx => ?_)
    joined sortKeys
  -- a partition has a row, so that the argument is no wildcard
  obtain ⟨i, hi⟩ := List.exists_mem_of_ne_nil group (parted.nonempty group hgroup)
  obtain ⟨all, table⟩ := he.not_wildcard (sub group hgroup (List.mem_map_of_mem hi))
  refine (exec_listCall_routine all table flags hx).trans ?_
  rw [List.map_map]
  rfl

/-- Each row has the text of its group. -/
theorem getElem?_groupTexts {keyValues : List (List Value)} {groups : List (List Nat)}
    {records : List Record} (count : keyValues.length = records.length)
    (parted : KeyPartition env.clock keyValues groups) (separator : String) {group : List Nat}
    (hgroup : group ∈ groups) {i : Nat} (hi : i ∈ group) :
    (groupTexts env.clock separator distinct value records groups)[i]? =
      some (joinedText env.clock separator distinct value
        (group.map fun i => records.getD i default)) := by
  obtain ⟨k, hk⟩ := List.mem_iff_getElem?.mp hgroup
  have apart : groups.flatten.Nodup := parted.perm.nodup_iff.mpr List.nodup_range
  refine getElem?_scatter (count ▸ parted.lt hgroup hi) (lookup_flatten apart hk ?_ hi)
  rw [List.getElem?_map, hk]
  rfl

end Window

/-! ## Select lists -/

section Select

variable {distinct : Bool} {separator : Option String} {rows : List Record}
  {value : Record → Value} {sortKeys : Record → List SortKey}

theorem listWindows_joinedArguments (windowless : e.windowCalls = []) (separator : Option String) :
    listWindows (joinedArguments e separator) = [] := by
  rw [joinedArguments, listWindows, windowless]
  cases separator <;> rfl

theorem isAggregate_joinedArguments (plain : e.hasAggregate = false) (separator : Option String) :
    (nodesOfList (joinedArguments e separator)).any Expr.isAggregate = false := by
  rw [joinedArguments, nodesOfList, List.any_append]
  refine Bool.or_eq_false_iff.mpr ⟨plain, ?_⟩
  cases separator <;> rfl

/-- Selected from groups, the call has for each group the text of its rows in the order of the sort
keys. -/
theorem exec_select_listCall (name : String) (distinct : Bool) (separator : Option String)
    (aliasName : Option String) (he : e.Gives env v s value)
    (hk : KeysGive order env v s sortKeys) (plain : e.hasAggregate = false)
    (windowless : e.windowCalls = []) (windowlessOrder : orderWindows order = [])
    (hwidth : 0 < v.header.width) (stored : w.header.Stored)
    (answered : ∀ p : Part, p.AnsweredAs v.header w.header) (grouped : w.grouped = true)
    (rectangular : w.Rectangular) {groups : List (List Record)}
    (records : w.records = groups.map (Record.group v.header.width))
    (sub : ∀ rows ∈ groups, rows ⊆ v.records) :
    ∃ result, exec ((select (selectItems [.mk (listCall name distinct e separator order) aliasName])
        env).runOn w) s = (.ok result, s) ∧
      result.fix.rows = groups.map fun rows => [joinedText env.clock (separatorText name separator)
        distinct value (rowsInOrder order sortKeys rows)] := by
  have kept : w.groupFor (selectItems [.mk (listCall name distinct e separator order) aliasName])
      = w := by
    rw [View.groupFor, grouped]
    rfl
  have calls : (listCall name distinct e separator order).windowCalls = [] := by
    rw [Expr.windowCalls, listWindows_joinedArguments windowless, windowlessOrder]
    rfl
  have values : exec (Operand.evalEach ⟨listCall name distinct e separator order,
      fun env => (listCall name distinct e separator order).eval env⟩ env w.bindings) s =
        (.ok (groups.map fun rows => joinedText env.clock (separatorText name separator) distinct
          value (rowsInOrder order sortKeys rows)), s) := by
    rw [View.bindings, grouped, records, List.map_map, Operand.evalEach, List.mapM_map]
    exact exec_mapM_of_ok fun rows hrows =>
      exec_listAggregate_group he hk plain hwidth stored answered (sub rows hrows)
  have selected := exec_select_single aliasName (.inl rfl) calls
    (stored.findComputed? _) kept values
  have made := Stage.exec_runOn (select (selectItems [.mk (listCall name distinct e separator order)
    aliasName]) env) w s
  rw [selected] at made
  refine ⟨_, made, ?_⟩
  rw [View.rows_fix_pushColumn rectangular _ aliasName (by rw [records, List.length_map,
    List.length_map]), List.map_map]
  rfl

/-- Selected as a window, the call has for each row the text of the rows of its partition, joined in
the order of the records. -/
theorem exec_select_listWindow (distinct : Bool) (separator aliasName : Option String)
    (joins : joiningNames.contains name = true) (he : e.Gives env v s value)
    (plain : e.hasAggregate = false) (windowless : e.windowCalls = [])
    (ungrouped : v.grouped = false) (rectangular : v.Rectangular) (stored : v.header.Stored)
    {partition : List Expr} (plainKeys : (nodesOfList partition).any Expr.isAggregate = false)
    (windowlessKeys : listWindows partition = []) {keyValues : List (List Value)}
    (hkeys : exec (v.bindings.mapM fun b => evalAll (operands partition) (env.bind b)) s
      = (.ok keyValues, s)) :
    ∃ windowed, exec ((select (selectItems [.mk (listWindow name distinct e separator partition)
        aliasName]) env).runOn v) s = (.ok windowed, s) ∧
      windowed.records.map (fun r => r.take v.header.width) = v.records ∧
      ∀ group ∈ groupIndices env.clock keyValues, ∀ i ∈ group, windowed.fix.rows[i]? =
        some [joinedText env.clock (separatorText name separator) distinct value
          (group.map fun i => v.records.getD i default)] := by
  have selected := exec_select_unorderedCall aliasName (isAggregate_joinedArguments plain separator)
    (listWindows_joinedArguments windowless separator) plainKeys windowlessKeys stored
    (exec_listCall_run distinct separator joins he ungrouped hkeys)
  have length : (groupTexts env.clock (separatorText name separator) distinct value v.records
      (groupIndices env.clock keyValues)).length = v.records.length := length_scatter ..
  have made := Stage.exec_runOn (select (selectItems [.mk (listWindow name distinct e separator
    partition) aliasName]) env) v s
  rw [selected] at made
  refine ⟨_, made, View.take_pushColumn rectangular (.computed (listWindow name distinct e separator
    partition).text) length, fun group hgroup i hi => ?_⟩
  obtain ⟨count, parted⟩ := View.keyPartition_of_exec hkeys
  rw [View.rows_fix_pushColumn rectangular _ aliasName length, List.getElem?_map,
    getElem?_groupTexts count parted _ hgroup hi]
  rfl

/-- A call that joins texts leaves its sort keys behind when it becomes a window. With and without
`OVER` the same call with sort keys is read; but the window call has no place for the keys. If the
argument and the keys have values for all rows, both calls succeed over the same groups of rows. Over
a group the texts are joined in the order of the keys, and in a window in the order of the records:
so the window gives the rows of a group the text that the group has exactly if both orders join to
the same text, as they do when the records are in the order of the keys already. -/
theorem list_windows_join_in_record_order {keys : List (Option String × String)}
    (groupAlias windowAlias : Option String) (joins : joiningNames.contains name = true)
    (he : e.Gives env v s value) (hk : KeysGive order env v s sortKeys)
    (plain : e.hasAggregate = false) (windowless : e.windowCalls = [])
    (windowlessOrder : orderWindows order = []) (ungrouped : v.grouped = false)
    (rectangular : v.Rectangular) (hwidth : 0 < v.header.width) (stored : v.header.Stored)
    (found : ∀ key ∈ keys, ∃ i, v.header.find? key.1 key.2 = .ok (some i)) :
    (∀ {g : Grammar} {ts rest : List Token} {items : List (List Token)}, g.Starts → g.Reads ts e →
      g.ReadsOrder order → (∀ text ∈ separator, g.Reads [.text text] (.literal (.text text))) →
      List.Forall₂ g.Reads items (keyColumns keys) →
      (tightness rest ≠ 8 →
        Takes g.primary (sortedCallTokens name distinct ts separator (orderTokens order))
          (listCall name distinct e separator order) rest) ∧
      Takes g.primary (sortedCallTokens name distinct ts separator (orderTokens order) ++
        .identifier "OVER" :: parenTokens (overTokens items []))
        (listWindow name distinct e separator (keyColumns keys)) rest) ∧
    ∃ keyValues grouped result windowed,
      exec (v.bindings.mapM fun b => evalAll (operands (keyColumns keys)) (env.bind b)) s
        = (.ok keyValues, s) ∧
      keyValues.length = v.records.length ∧
      KeyPartition env.clock keyValues (groupIndices env.clock keyValues) ∧
      exec (v.groupBy (operands (keyColumns keys)) env) s = (.ok grouped, s) ∧
      exec ((select (selectItems [.mk (listCall name distinct e separator order) groupAlias])
        env).runOn grouped) s = (.ok result, s) ∧
      exec ((select (selectItems [.mk (listWindow name distinct e separator (keyColumns keys))
        windowAlias]) env).runOn v) s = (.ok windowed, s) ∧
      windowed.records.map (fun r => r.take v.header.width) = v.records ∧
      ∀ (k : Nat) (group : List Nat), (groupIndices env.clock keyValues)[k]? = some group →
        let rows := group.map fun i => v.records.getD i default
        let text := joinedText env.clock (separatorText name separator) distinct value
        result.fix.rows[k]? = some [text (rowsInOrder order sortKeys rows)] ∧
        (∀ i ∈ group, windowed.fix.rows[i]? = some [text rows]) ∧
        ((∀ i ∈ group, windowed.fix.rows[i]? = result.fix.rows[k]?) ↔
          text rows = text (rowsInOrder order sortKeys rows)) ∧
        (rows.Pairwise (fun a b => SortKey.tupleLess (keyOrders (sortOperands order)) (sortKeys b)
          (sortKeys a) = false) → rowsInOrder order sortKeys rows = rows) := by
  refine ⟨fun {g} _ _ _ starts argumentRead keysRead separatorRead partitionRead =>
    ⟨takes_sortedCall starts argumentRead keysRead joins separatorRead,
      takes_sortedCall_over starts argumentRead keysRead joins separatorRead partitionRead
        (show g.ReadsOrder [] from trivial)⟩, ?_⟩
  obtain ⟨grouped, hgroup⟩ := View.exec_groupBy_of_found env ungrouped found s
  obtain ⟨keyValues, hkeys, count, partition, stays, width, hw⟩ := View.groupBy_columns hgroup
  have sub : ∀ group ∈ groupIndices env.clock keyValues,
      (group.map fun i => v.records.getD i default) ⊆ v.records := fun group hgroup =>
    getD_records_subset fun i hi => count ▸ partition.lt hgroup hi
  have markedStored := stays.stored width stored
  have answered : ∀ p : Part, p.AnsweredAs v.header grouped.header :=
    Part.answeredAs_of_lookups (stays.find?_eq width) fun text => by
      rw [markedStored.findComputed?, stored.findComputed?]
  have records : grouped.records = ((groupIndices env.clock keyValues).map fun group =>
      group.map fun i => v.records.getD i default).map (Record.group v.header.width) := by
    rw [hw, List.map_map]
    rfl
  obtain ⟨result, hresult, resultRows⟩ := exec_select_listCall name distinct separator groupAlias
    he hk plain windowless windowlessOrder hwidth markedStored answered (by rw [hw])
    (View.groupBy_rectangular hgroup) records (List.forall_mem_map.mpr sub)
  obtain ⟨windowed, hwindowed, kept, windowRows⟩ := exec_select_listWindow distinct separator
    windowAlias joins he plain windowless ungrouped rectangular stored (isAggregate_keyColumns keys)
    (listWindows_keyColumns keys) hkeys
  refine ⟨keyValues, grouped, result, windowed, hkeys, count, partition, hgroup, hresult, hwindowed,
    kept, fun k group hk => ?_⟩
  have ofGroup := windowRows group (List.mem_of_getElem? hk)
  have inGroup : result.fix.rows[k]? = some [joinedText env.clock (separatorText name separator)
      distinct value (rowsInOrder order sortKeys (group.map fun i => v.records.getD i default))] := by
    rw [resultRows, List.getElem?_map, List.getElem?_map, hk]
    rfl
  refine ⟨inGroup, ofGroup, ⟨fun same => ?_, fun same i hi => ?_⟩, stableSort_of_pairwise⟩
  · obtain ⟨i, hi⟩ := List.exists_mem_of_ne_nil group
      (partition.nonempty group (List.mem_of_getElem? hk))
    have both := (ofGroup i hi).symm.trans ((same i hi).trans inGroup)
    exact List.head_eq_of_cons_eq (Option.some.inj both)
  · rw [ofGroup i hi, inGroup, same]

end Select

/-- The tokens of a list in order, as a window. -/
def orderedListLexemes : List Lexeme :=
  [⟨.identifier "listagg", 0⟩, ⟨.symbol .leftParen, 7⟩, ⟨.identifier "s", 8⟩, ⟨.symbol .comma, 9⟩,
    ⟨.text ",", 11⟩, ⟨.symbol .rightParen, 14⟩, ⟨.identifier "within", 16⟩, ⟨.keyword .group, 23⟩,
    ⟨.symbol .leftParen, 29⟩, ⟨.keyword .order, 30⟩, ⟨.keyword .by, 36⟩, ⟨.identifier "s", 39⟩,
    ⟨.symbol .rightParen, 40⟩, ⟨.identifier "over", 42⟩, ⟨.symbol .leftParen, 47⟩,
    ⟨.identifier "partition", 48⟩, ⟨.keyword .by, 58⟩, ⟨.identifier "g", 61⟩,
    ⟨.symbol .rightParen, 62⟩, ⟨.ending, 63⟩]

/-- The rows 2 and 1 of one partition: the list in order is `1,2` over their group and `2,1` in each
row of their window. -/
theorem list_windows_join_in_record_order_listed :
    let v : View := .ofRows (.ofNames "w" ["g", "s"])
      [[.integer 1, .integer 2], [.integer 1, .integer 1]]
    let order : List OrderItem := [.mk (.column none "s") none none]
    let call := listCall "LISTAGG" false (.column none "s") (some ",") order
    let window := listWindow "LISTAGG" false (.column none "s") (some ",") (keyColumns [(none, "g")])
    parseExpr "listagg(s, ',') within group (order by s) over (partition by g)" = .ok window ∧
    ∃ grouped result windowed,
      exec (v.groupBy (operands (keyColumns [(none, "g")])) {}) {} = (.ok grouped, {}) ∧
      exec ((select (selectItems [.mk call none]) {}).runOn grouped) {} = (.ok result, {}) ∧
      exec ((select (selectItems [.mk window none]) {}).runOn v) {} = (.ok windowed, {}) ∧
      result.fix.rows[0]? = some [.text "1,2"] ∧
      windowed.fix.rows[0]? = some [.text "2,1"] ∧ windowed.fix.rows[1]? = some [.text "2,1"] := by
  intro v order call window
  have lexed : (lexemes "listagg(s, ',') within group (order by s) over (partition by g)").toOption
      = some orderedListLexemes := by decide +kernel
  have parsed : parseExpr "listagg(s, ',') within group (order by s) over (partition by g)"
      = .ok window := parseWith_eq_ok.2 ⟨orderedListLexemes, [⟨.ending, 63⟩],
        toOption_eq_some lexed, rfl⟩
  refine ⟨parsed, ?_⟩
  have found : v.header.find? none "s" = .ok (some 1) := by rfl
  have he : Expr.Gives (.column none "s") {} v {} fun r => r.value 1 :=
    fun r _ => exec_column found {}
  have hk : KeysGive order {} v {} fun r => SortKey.ofValues {} [r.value 1] := fun r _ =>
    exec_bind_ok (exec_bind_ok (exec_column found {}) _) _
  have joined := @list_windows_join_in_record_order {} {} v "LISTAGG" (.column none "s") order false
    (some ",") (fun r => r.value 1) (fun r => SortKey.ofValues {} [r.value 1]) [(none, "g")] none none
    (by decide) he hk rfl rfl rfl rfl (View.ofRows_rectangular (by decide)) (by decide)
    (Header.stored_ofNames _ _) (fun key mem => ⟨0, by rw [List.mem_singleton.mp mem]; rfl⟩)
  obtain ⟨-, keyValues, grouped, result, windowed, hkeys, -, -, hgroup, hresult, hwindowed, -,
    texts⟩ := joined
  have computed : [[.integer 1], [.integer 1]] = keyValues :=
    Except.ok.inj (congrArg Prod.fst hkeys)
  subst computed
  obtain ⟨inGroup, ofGroup, -, -⟩ := texts 0 [0, 1] rfl
  have swapped : rowsInOrder order (fun r => SortKey.ofValues {} [r.value 1])
      [v.records[0], v.records[1]] = [v.records[1], v.records[0]] :=
    stableSort_swapped (by decide +kernel)
  have ascending : joinedText {} "," false (fun r => r.value 1) [v.records[1], v.records[0]] =
      .text "1,2" := by rfl
  have given : joinedText {} "," false (fun r => r.value 1) [v.records[0], v.records[1]] =
      .text "2,1" := by rfl
  refine ⟨grouped, result, windowed, hgroup, hresult, hwindowed, inGroup.trans ?_,
    (ofGroup 0 (by simp)).trans (congrArg (fun x => some [x]) given),
    (ofGroup 1 (by simp)).trans (congrArg (fun x => some [x]) given)⟩
  rw [← ascending, ← swapped]
  rfl

end TableQuery
