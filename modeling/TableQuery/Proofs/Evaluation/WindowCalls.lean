import TableQuery.Proofs.Evaluation.Partition
import TableQuery.Proofs.Evaluation.WindowRoutines
import TableQuery.Proofs.Table.Sorting

/-!
# Window calls permute and extend

A window call sorts the records of a view together with their sort keys, splits them into partitions
and gives each record the value that was computed for it as a member of its partition. Nothing else
of the view changes: the call adds one column.
-/

namespace TableQuery

open Eval

variable {env : Env} {s t : Scope} {call : WindowCall} {v w : View}

/-- The records of a window with their sort keys, in the order of the window. -/
def WindowCall.sorted (call : WindowCall) (keys : List (List SortKey)) (records : List Record) :
    List (List SortKey × Record) :=
  if call.order.isEmpty then keys.zip records
  else sortByKeys (keyOrders call.order) (keys.zip records)

/-- The members of a group with their sort keys. -/
def rowsAt (rows : List (List SortKey × Record)) (group : List Nat) :
    List (List SortKey × Record) :=
  group.filterMap fun i => rows[i]?

/-- The partition that is made of records with their sort keys. -/
def View.partition (v : View) (rows : List (List SortKey × Record)) : Partition where
  members := rows.map fun row => { header := v.header, record := row.2, grouped := v.grouped }
  flags := peers (rows.map Prod.fst)

/-- The view `w` is `v` with its records in the order of the window, where each has one more cell:
the value that `results` holds for it as a member of its group. -/
structure WindowCall.Extends (call : WindowCall) (v w : View) (keys : List (List SortKey))
    (groups : List (List Nat)) (results : List (List Value)) : Prop where
  /-- Every record keeps its own keys. -/
  perm : (call.sorted keys v.records).Perm (keys.zip v.records)
  ordered : call.order ≠ [] → call.sorted keys v.records =
    stableSort (fun a b => SortKey.tupleLess (keyOrders call.order) a.1 b.1) (keys.zip v.records)
  unordered : call.order = [] → (call.sorted keys v.records).map Prod.snd = v.records
  /-- One column is new, which is named by the text of the call, and one value in each record. -/
  column : ∃ values, values.length = v.records.length ∧
    w = { v with
      header := ⟨v.header.columns ++ [.computed call.expr.text]⟩
      records := ((call.sorted keys v.records).map Prod.snd).zipWith
        (fun r x => ⟨r.cells ++ [⟨[x]⟩]⟩) values }
  /-- The members of a group get the values of the group in their order. -/
  members : ∀ (k : Nat) (group : List Nat), groups[k]? = some group →
    ∃ result : List Value, results[k]? = some result ∧ result.length = group.length ∧
    ∀ (m i : Nat), group[m]? = some i → ∃ (row : List SortKey × Record) (x : Value),
      (call.sorted keys v.records)[i]? = some row ∧
      (rowsAt (call.sorted keys v.records) group)[m]? = some row ∧
      result[m]? = some x ∧ w.records[i]? = some ⟨row.2.cells ++ [⟨[x]⟩]⟩

/-! ## Scattering -/

section

variable {group : List Nat} {result : List Value} {i k m : Nat} {x : Value}

theorem lookup_zip_of_notMem (outside : i ∉ group) : (group.zip result).lookup i = none := by
  rw [List.lookup_eq_none_iff]
  intro pair mem
  have inside : pair.1 ∈ group := (List.of_mem_zip mem).1
  exact bne_iff_ne.mpr fun same => outside (same ▸ inside)

theorem lookup_zip (apart : group.Nodup) (hi : group[m]? = some i) (hx : result[m]? = some x) :
    (group.zip result).lookup i = some x := by
  induction group generalizing result m with
  | nil => cases hi
  | cons j group ih =>
    cases result with
    | nil => cases hx
    | cons y result =>
      rw [List.zip_cons_cons, List.lookup_cons]
      cases m with
      | zero =>
        cases hi
        cases hx
        rw [beq_self_eq_true]
      | succ m =>
        have later : i ∈ group := List.mem_of_getElem? hi
        have other : i ≠ j := fun same => (List.nodup_cons.mp apart).1 (same ▸ later)
        rw [beq_false_of_ne other]
        exact ih (List.nodup_cons.mp apart).2 hi hx

/-- Every index finds its own value among those of all groups. -/
theorem lookup_zips {groups : List (List Nat)} {results : List (List Value)}
    (apart : groups.flatten.Nodup) (hgroup : groups[k]? = some group)
    (hresult : results[k]? = some result) (hi : group[m]? = some i) (hx : result[m]? = some x) :
    (groups.zipWith List.zip results).flatten.lookup i = some x := by
  induction groups generalizing results k with
  | nil => cases hgroup
  | cons first groups ih =>
    rw [List.flatten_cons, List.nodup_append] at apart
    cases results with
    | nil => cases hresult
    | cons r results =>
      rw [List.zipWith_cons_cons, List.flatten_cons, List.lookup_append]
      cases k with
      | zero =>
        cases hgroup
        cases hresult
        rw [lookup_zip apart.1 hi hx]
        rfl
      | succ k =>
        have later : i ∈ groups.flatten :=
          List.mem_flatten.mpr ⟨group, List.mem_of_getElem? hgroup, List.mem_of_getElem? hi⟩
        have outside : i ∉ first := fun hfirst => apart.2.2 i hfirst i later rfl
        rw [lookup_zip_of_notMem outside]
        exact ih apart.2.1 hgroup hresult

theorem getElem?_scatter {count : Nat} (hi : i < count) {pairs : List (Nat × Value)}
    (h : pairs.lookup i = some x) : (scatter count pairs)[i]? = some x := by
  rw [scatter, List.getElem?_map, List.getElem?_range hi, Option.map_some, h]
  rfl

end

/-! ## Running a call -/

/-- A window call succeeds if all of its parts do, one after the other. -/
theorem WindowCall.exec_run_iff : Stage.exec (call.run env) v s = ((.ok (), w), t) ↔
    ∃ kind s₁ keys s₂ values, exec (call.kind env) s = (.ok kind, s₁) ∧
      exec (call.sortKeys env v) s₁ = (.ok keys, s₂) ∧
      exec (call.values env (call.routine env kind)
        { v with records := (call.sorted keys v.records).map Prod.snd }
        ((call.sorted keys v.records).map Prod.fst)) s₂ = (.ok values, t) ∧
      w = { v with records := (call.sorted keys v.records).map Prod.snd }.pushColumn
        (.computed call.expr.text) values := by
  unfold WindowCall.run
  constructor
  · intro h
    obtain ⟨kind, s₁, hkind, h⟩ := Stage.exec_bind_liftEval_eq_ok h
    rw [Stage.exec_bind_ok (Stage.exec_view v s₁)] at h
    obtain ⟨keys, s₂, hkeys, h⟩ := Stage.exec_bind_liftEval_eq_ok h
    rw [Stage.exec_bind_ok (Stage.exec_modifyView ..)] at h
    obtain ⟨values, _, hvalues, h⟩ := Stage.exec_bind_liftEval_eq_ok h
    cases h
    exact ⟨kind, s₁, keys, s₂, values, hkind, hkeys, hvalues, rfl⟩
  · rintro ⟨kind, s₁, keys, s₂, values, hkind, hkeys, hvalues, rfl⟩
    rw [Stage.exec_bind, Stage.exec_liftEval, hkind]
    dsimp only [Stage.execThen]
    rw [Stage.exec_bind, Stage.exec_view]
    dsimp only [Stage.execThen]
    rw [Stage.exec_bind, Stage.exec_liftEval, hkeys]
    dsimp only [Stage.execThen]
    rw [Stage.exec_bind, Stage.exec_modifyView]
    dsimp only [Stage.execThen]
    rw [Stage.exec_bind, Stage.exec_liftEval]
    unfold WindowCall.sorted at hvalues
    rw [hvalues]
    rfl

/-! ## Partitions -/

section

variable {rows : List (List SortKey × Record)} {group : List Nat} {i m : Nat}

theorem rowsAt_eq (bounded : ∀ i ∈ group, i < rows.length) :
    rowsAt rows group = group.map fun i => rows.getD i ([], default) := by
  rw [rowsAt, ← List.filterMap_eq_map]
  refine List.filterMap_congr fun i hi => ?_
  rw [List.getElem?_eq_getElem (bounded i hi), Function.comp_apply,
    List.getD_eq_getElem _ _ (bounded i hi)]

theorem length_rowsAt (bounded : ∀ i ∈ group, i < rows.length) :
    (rowsAt rows group).length = group.length := by
  rw [rowsAt_eq bounded, List.length_map]

theorem getElem?_rowsAt (bounded : ∀ i ∈ group, i < rows.length) (hi : group[m]? = some i) :
    (rowsAt rows group)[m]? = rows[i]? := by
  have inside := bounded i (List.mem_of_getElem? hi)
  rw [rowsAt_eq bounded, List.getElem?_map, hi, Option.map_some, List.getD_eq_getElem _ _ inside,
    List.getElem?_eq_getElem inside]

theorem View.length_members_partition (v : View) (rows : List (List SortKey × Record)) :
    (v.partition rows).members.length = rows.length :=
  List.length_map _

theorem View.length_flags_partition (v : View) (rows : List (List SortKey × Record)) :
    (v.partition rows).flags.length = (v.partition rows).members.length := by
  rw [length_members_partition, partition, length_peers, List.length_map]

/-- The records and the sort keys that a window looks up for a group belong together. -/
theorem View.partition_rowsAt (v : View) (bounded : ∀ i ∈ group, i < rows.length) :
    v.partition (rowsAt rows group) =
      { members := group.filterMap fun i => { v with records := rows.map Prod.snd }.bindings[i]?
        flags := peers (group.map fun i => (rows.map Prod.fst).getD i []) } := by
  have members : (rowsAt rows group).map (fun row =>
      ({ header := v.header, record := row.2, grouped := v.grouped } : Binding)) =
        group.filterMap fun i => { v with records := rows.map Prod.snd }.bindings[i]? := by
    rw [rowsAt, List.map_filterMap]
    refine List.filterMap_congr fun i _ => ?_
    rw [bindings, List.getElem?_map, List.getElem?_map, Option.map_map]
    rfl
  have keys : (rowsAt rows group).map Prod.fst =
      group.map fun i => (rows.map Prod.fst).getD i [] := by
    rw [rowsAt_eq bounded, List.map_map]
    refine List.map_congr_left fun i hi => ?_
    have inside := bounded i hi
    rw [Function.comp_apply, List.getD_eq_getElem _ _ inside,
      List.getD_eq_getElem _ _ (by simpa using inside), List.getElem_map]
  rw [partition, members, keys]

/-- The values of a window call: the groups of equivalent keys are partitions, each of them gives
its values, and every record gets its own. -/
theorem WindowCall.values_eq_ok {routine : WindowRoutine} {values : List Value}
    (h : exec (call.values env routine { v with records := rows.map Prod.snd }
      (rows.map Prod.fst)) s = (.ok values, t)) :
    ∃ partitionKeys u results,
      exec ({ v with records := rows.map Prod.snd }.bindings.mapM fun b =>
        evalAll call.partition (env.bind b)) s = (.ok partitionKeys, u) ∧
      partitionKeys.length = rows.length ∧
      KeyPartition env.clock partitionKeys (groupIndices env.clock partitionKeys) ∧
      exec ((groupIndices env.clock partitionKeys).mapM fun group =>
        routine (v.partition (rowsAt rows group))) u = (.ok results, t) ∧
      values = scatter rows.length
        ((groupIndices env.clock partitionKeys).zipWith List.zip results).flatten := by
  unfold WindowCall.values at h
  obtain ⟨partitionKeys, u, hkeys, h⟩ := exec_bind_eq_ok h
  obtain ⟨pairs, _, hpairs, h⟩ := exec_bind_eq_ok h
  obtain ⟨count, groups⟩ := View.keyPartition_of_exec hkeys
  rw [List.length_map] at count
  have bounded : ∀ group ∈ groupIndices env.clock partitionKeys, ∀ i ∈ group, i < rows.length :=
    fun group mem i hi => count ▸ groups.lt mem hi
  have beside : ∀ group ∈ groupIndices env.clock partitionKeys,
      (do
        let members := group.filterMap fun i =>
          { v with records := rows.map Prod.snd }.bindings[i]?
        let flags := peers (group.map fun i => (rows.map Prod.fst).getD i [])
        return group.zip (← routine ⟨members, flags⟩)) =
      (do return group.zip (← routine (v.partition (rowsAt rows group)))) := by
    intro group mem
    rw [View.partition_rowsAt v (bounded group mem)]
  obtain ⟨results, hresults, rfl⟩ := exec_mapM_beside beside hpairs
  cases h
  refine ⟨partitionKeys, u, results, hkeys, count, groups, hresults, ?_⟩
  rw [List.length_map]

end

/-! ## The view that a call makes -/

theorem WindowCall.length_sortKeys {keys : List (List SortKey)}
    (h : exec (call.sortKeys env v) s = (.ok keys, t)) : keys.length = v.records.length := by
  unfold WindowCall.sortKeys at h
  obtain ⟨columns, _, -, h⟩ := exec_bind_eq_ok h
  cases h
  simp

theorem WindowCall.sorted_perm (call : WindowCall) (keys : List (List SortKey))
    (records : List Record) : (call.sorted keys records).Perm (keys.zip records) := by
  unfold WindowCall.sorted
  split
  · exact .refl _
  · exact stableSort_perm _ _

/-- A window call permutes and extends. The records are sorted together with their keys, and each of
them gets one more cell under a new column. Its value is the one computed for it: partitions are the
groups of equivalent keys, whatever is computed has one value for each member, and the values of a
partition go to its members in their order. -/
theorem window_call_permutes_and_extends
    (h : Stage.exec (call.run env) v s = ((.ok (), w), t)) :
    ∃ kind s₁ keys s₂ partitionKeys s₃ results,
      exec (call.kind env) s = (.ok kind, s₁) ∧
      exec (call.sortKeys env v) s₁ = (.ok keys, s₂) ∧
      keys.length = v.records.length ∧
      exec ({ v with records := (call.sorted keys v.records).map Prod.snd }.bindings.mapM fun b =>
        evalAll call.partition (env.bind b)) s₂ = (.ok partitionKeys, s₃) ∧
      partitionKeys.length = v.records.length ∧
      KeyPartition env.clock partitionKeys (groupIndices env.clock partitionKeys) ∧
      exec ((groupIndices env.clock partitionKeys).mapM fun group =>
        call.routine env kind (v.partition (rowsAt (call.sorted keys v.records) group))) s₃
          = (.ok results, t) ∧
      call.Extends v w keys (groupIndices env.clock partitionKeys) results ∧
      ∀ (p : Partition) (s t : Scope) (values : List Value),
        p.flags.length = p.members.length →
        exec (call.routine env kind p) s = (.ok values, t) → values.length = p.members.length := by
  obtain ⟨kind, s₁, keys, s₂, values, hkind, hkeys, hvalues, rfl⟩ := WindowCall.exec_run_iff.mp h
  obtain ⟨partitionKeys, s₃, results, hpartition, count, partition, hresults, rfl⟩ :=
    WindowCall.values_eq_ok hvalues
  have length := WindowCall.length_sortKeys hkeys
  have size : (call.sorted keys v.records).length = v.records.length := by
    rw [(call.sorted_perm keys v.records).length_eq, List.length_zip, length, Nat.min_self]
  have one_each (p : Partition) (s t : Scope) (values : List Value)
      (flags : p.flags.length = p.members.length)
      (run : exec (call.routine env kind p) s = (.ok values, t)) :
      values.length = p.members.length :=
    WindowCall.length_of_routine hkind flags run
  refine ⟨kind, s₁, keys, s₂, partitionKeys, s₃, results, hkind, hkeys, length, hpartition,
    count.trans size, partition, hresults, ⟨call.sorted_perm keys v.records, ?_, ?_, ?_, ?_⟩,
    one_each⟩
  · intro ordered
    exact if_neg (by simpa using ordered)
  · intro unordered
    rw [WindowCall.sorted, unordered, if_pos List.isEmpty_nil, List.map_snd_zip length.ge]
  · exact ⟨_, (length_scatter ..).trans size, rfl⟩
  · intro k group hgroup
    have bounded : ∀ i ∈ group, i < (call.sorted keys v.records).length := fun i hi =>
      count ▸ partition.lt (List.mem_of_getElem? hgroup) hi
    obtain ⟨result, hresult, u, u', run⟩ := exists_of_exec_mapM hresults hgroup
    have each : result.length = group.length := by
      rw [one_each _ _ _ _ (v.length_flags_partition _) run, View.length_members_partition,
        length_rowsAt bounded]
    refine ⟨result, hresult, each, fun m i hi => ?_⟩
    have inside := bounded i (List.mem_of_getElem? hi)
    have place : m < result.length := each ▸ (List.getElem?_eq_some_iff.mp hi).1
    have row := List.getElem?_eq_getElem inside
    have value := getElem?_scatter inside (lookup_zips
      (partition.perm.nodup_iff.mpr List.nodup_range) hgroup hresult hi
      (List.getElem?_eq_getElem place))
    refine ⟨_, _, row, (getElem?_rowsAt bounded hi).trans row, List.getElem?_eq_getElem place, ?_⟩
    rw [View.pushColumn, List.getElem?_zipWith, List.getElem?_map, row, value]
    rfl

/-- `ROW_NUMBER() OVER (ORDER BY k)` swaps the rows 7 and 5, and gives them the numbers of their new
places. -/
theorem window_call_permutes_and_extends_swapped :
    let v : View := .ofRows (.ofNames "t" ["k"]) [[.integer 7], [.integer 5]]
    let item : OrderItem := .mk (.column none "k") none none
    let call : WindowCall :=
      { expr := .window "row_number" false [] [] [item], name := "row_number", distinct := false
        args := [], partition := [], order := sortOperands [item] }
    ∃ w, Stage.exec (call.run {}) v {} = ((.ok (), w), {}) ∧
      w.records[0]? = some ⟨[⟨[.integer 5]⟩, ⟨[.integer 1]⟩]⟩ ∧
      w.records[1]? = some ⟨[⟨[.integer 7]⟩, ⟨[.integer 2]⟩]⟩ := by
  intro v item call
  let key (k : Int64) : List SortKey := SortKey.ofValues {} [.integer k]
  let row (k : Int64) : List SortKey × Record := (key k, .ofValues [.integer k])
  have less : SortKey.tupleLess (keyOrders call.order) (key 5) (key 7) = true := by rfl
  have sorted : call.sorted [key 7, key 5] v.records = [row 5, row 7] :=
    stableSort_swapped less
  have kind : exec (call.kind {}) {} = (.ok (.function .rowNumber), {}) := by
    have named : WindowFunction.ofName? call.name = some .rowNumber := by
      dsimp only [call]
      rfl
    unfold WindowCall.kind
    rw [named]
    rfl
  have keys : exec (call.sortKeys {} v) {} = (.ok [key 7, key 5], {}) := rfl
  have values : exec (call.values {} (call.routine {} (.function .rowNumber))
      { v with records := (call.sorted [key 7, key 5] v.records).map Prod.snd }
      ((call.sorted [key 7, key 5] v.records).map Prod.fst)) {}
        = (.ok [.integer 1, .integer 2], {}) := by
    rw [sorted]
    rfl
  obtain ⟨w, run⟩ : ∃ w, Stage.exec (call.run {}) v {} = ((.ok (), w), {}) :=
    ⟨_, WindowCall.exec_run_iff.mpr ⟨_, _, _, _, _, kind, keys, values, rfl⟩⟩
  obtain ⟨_, _, _, _, partitionKeys, _, results, hkind, hkeys, -, hpartition, -, -, hresults, made,
    -⟩ := window_call_permutes_and_extends run
  cases kind.symm.trans hkind
  cases keys.symm.trans hkeys
  rw [sorted] at hpartition hresults
  have whole : [[], []] = partitionKeys := Except.ok.inj (congrArg Prod.fst hpartition)
  subst whole
  have numbers : [[.integer 1, .integer 2]] = results :=
    Except.ok.inj (congrArg Prod.fst hresults)
  subst numbers
  obtain ⟨_, only, -, places⟩ := made.members 0 [0, 1] rfl
  cases only
  rw [sorted] at places
  obtain ⟨_, _, first, -, one, record⟩ := places 0 0 rfl
  obtain ⟨_, _, second, -, two, record'⟩ := places 1 1 rfl
  cases first
  cases one
  cases second
  cases two
  exact ⟨w, run, record, record'⟩

end TableQuery
