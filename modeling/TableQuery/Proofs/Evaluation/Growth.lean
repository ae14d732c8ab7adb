import TableQuery.Evaluation.Clause
import TableQuery.Proofs.Evaluation.Run
import TableQuery.Proofs.Table.Growth

/-!
# Stages that grow a view

What computed columns, window calls, fields and sort keys do to the view, whether they succeed or
fail: all of them only grow it, and the columns that they pick exist from then on.
-/

namespace TableQuery

variable {α β : Type}

namespace Stage

/-! ## Rules -/

/-- The stage only grows the view, even if it fails. -/
def Grows (x : Stage α) : Prop :=
  ∀ (v : View) s, v.Grows (exec x v s).1.2

theorem Grows.of_view_eq {x : Stage α} (h : ∀ v s, (exec x v s).1.2 = v) : Grows x := by
  intro v s
  rw [h]
  exact .refl v

theorem Grows.pure (a : α) : Grows (pure a) :=
  .of_view_eq fun _ _ => rfl

theorem Grows.throw (e : QueryError) : Grows (throw e : Stage α) :=
  .of_view_eq fun _ _ => rfl

theorem Grows.view : Grows Stage.view :=
  .of_view_eq fun _ _ => rfl

theorem Grows.lift (x : Except QueryError α) : Grows (liftM x : Stage α) :=
  .of_view_eq fun _ _ => rfl

theorem Grows.bind {x : Stage α} {f : α → Stage β} (hx : Grows x) (hf : ∀ a, Grows (f a)) :
    Grows (x >>= f) := by
  intro v s
  have first := hx v s
  rw [exec_bind]
  generalize exec x v s = r at first ⊢
  rcases r with ⟨⟨_ | a, w⟩, t⟩
  · exact first
  · exact first.trans (hf a w t)

theorem Grows.mapM {f : α → Stage β} {as : List α} (h : ∀ a ∈ as, Grows (f a)) :
    Grows (as.mapM f) := by
  induction as with
  | nil => exact .pure []
  | cons a as ih =>
    rw [List.mapM_cons]
    refine (h a (by simp)).bind fun b => ?_
    exact (ih fun c hc => h c (by simp [hc])).bind fun bs => .pure (b :: bs)

theorem Grows.forM {f : α → Stage PUnit} {as : List α} (h : ∀ a ∈ as, Grows (f a)) :
    Grows (as.forM f) := by
  induction as with
  | nil => exact .pure PUnit.unit
  | cons a as ih =>
    exact (h a (by simp)).bind fun _ => ih fun c hc => h c (by simp [hc])

/-! ## Computed columns -/

/-- What adding a computed column does. -/
theorem exec_computedColumn (o : Operand) (env : Env) (v : View) (s : Scope) :
    exec (computedColumn o env) v s =
      match v.header.findComputed? o.text with
      | some i => ((.ok i, v), s)
      | none =>
        match Eval.exec (o.evalEach env v.bindings) s with
        | (.ok values, t) => ((.ok v.header.width, v.pushColumn (.computed o.text) values), t)
        | (.error e, t) => ((.error e, v), t) := by
  rw [computedColumn, exec_bind, exec_view]
  dsimp only [execThen]
  cases v.header.findComputed? o.text with
  | some i => rfl
  | none =>
    dsimp only
    rw [exec_bind, exec_liftEval]
    rcases Eval.exec (o.evalEach env v.bindings) s with ⟨_ | values, t⟩ <;> rfl

theorem length_evalEach {o : Operand} {env : Env} {bindings : List Binding} {s t : Scope}
    {values : List Value} (h : Eval.exec (o.evalEach env bindings) s = (.ok values, t)) :
    values.length = bindings.length :=
  Eval.length_of_exec_mapM h

theorem computedColumn_grows (o : Operand) (env : Env) : Grows (computedColumn o env) := by
  intro v s
  rw [exec_computedColumn]
  cases hf : v.header.findComputed? o.text with
  | some i => exact .refl v
  | none =>
    dsimp only
    rcases he : Eval.exec (o.evalEach env v.bindings) s with ⟨_ | values, t⟩
    · exact .refl v
    · have hlength := length_evalEach he
      rw [View.bindings, List.length_map] at hlength
      exact (View.Change.push hf hlength).grows

theorem computedColumn_lt {o : Operand} {env : Env} {v : View} {s : Scope} {i : Nat}
    (h : (exec (computedColumn o env) v s).1.1 = .ok i) :
    i < (exec (computedColumn o env) v s).1.2.header.width := by
  rw [exec_computedColumn] at h ⊢
  cases hf : v.header.findComputed? o.text with
  | some j =>
    rw [hf] at h
    cases h
    exact Header.lt_of_findComputed? hf
  | none =>
    rw [hf] at h
    dsimp only at h ⊢
    rcases he : Eval.exec (o.evalEach env v.bindings) s with ⟨_ | values, t⟩ <;> rw [he] at h
    · cases h
    · cases h
      exact Nat.lt_of_lt_of_eq (Nat.lt_succ_self _) (Header.width_push ..).symm

theorem addAlias_grows (i : Nat) (aliasName : Option String) : Grows (addAlias i aliasName) := by
  unfold addAlias
  split
  · exact fun v _ => (View.Change.addAlias (v := v) i _).grows
  · exact .pure _

/-- What looking up a column of the view gives. -/
theorem exec_columnIndex? (table : Option String) (name : String) (v : View) (s : Scope) :
    exec (columnIndex? table name) v s =
      match v.header.find? table name with
      | .error e => ((.error e, v), s)
      | .ok none => ((.ok none, v), s)
      | .ok (some i) =>
        let c := v.header.columns[i]?.getD {}
        if v.grouped && c.fromTable && !c.groupKey && !v.records.isEmpty then
          ((.error (.notGroupKey (referenceText table name)), v), s)
        else ((.ok (some i), v), s) := by
  rw [columnIndex?, exec_bind, exec_view]
  dsimp only [execThen]
  rw [exec_bind, exec_lift]
  rcases v.header.find? table name with e | _ | i
  · rfl
  · rfl
  · dsimp only [execThen]
    split <;> rfl

theorem columnIndex?_view (table : Option String) (name : String) (v : View) (s : Scope) :
    (exec (columnIndex? table name) v s).1.2 = v := by
  rw [exec_columnIndex?]
  split
  · rfl
  · rfl
  · dsimp only
    split <;> rfl

theorem columnIndex?_grows (table : Option String) (name : String) :
    Grows (columnIndex? table name) :=
  .of_view_eq (columnIndex?_view table name)

/-- What is found is what the header says. -/
theorem columnIndex?_eq_ok {table : Option String} {name : String} {v w : View} {s t : Scope}
    {i? : Option Nat} (h : exec (columnIndex? table name) v s = ((.ok i?, w), t)) :
    w = v ∧ v.header.find? table name = .ok i? := by
  rw [exec_columnIndex?] at h
  split at h
  · cases h
  · rename_i hf
    cases h
    exact ⟨rfl, hf⟩
  · rename_i j hf
    dsimp only at h
    split at h
    · cases h
    · cases h
      exact ⟨rfl, hf⟩

end Stage

/-! ## Window calls -/

theorem length_scatter (count : Nat) (pairs : List (Nat × Value)) :
    (scatter count pairs).length = count := by
  simp [scatter]

theorem WindowCall.length_values {call : WindowCall} {env : Env} {routine : WindowRoutine}
    {v : View} {keys : List (List SortKey)} {s t : Scope} {values : List Value}
    (h : Eval.exec (call.values env routine v keys) s = (.ok values, t)) :
    values.length = v.records.length := by
  unfold WindowCall.values at h
  obtain ⟨_, _, -, h⟩ := Eval.exec_bind_eq_ok h
  obtain ⟨pairs, _, -, h⟩ := Eval.exec_bind_eq_ok h
  cases h
  exact length_scatter _ _

/-- Records put together with keys and sorted are the same records. -/
theorem sorted_perm {keys : List (List SortKey)} {rs : List Record}
    (h : keys.length = rs.length) (orders : List KeyOrder) :
    ((sortByKeys orders (keys.zip rs)).map Prod.snd).Perm rs := by
  have hzip : (keys.zip rs).map Prod.snd = rs := List.map_snd_zip (Nat.le_of_eq h.symm)
  exact ((stableSort_perm _ _).map Prod.snd).trans (.of_eq hzip)

/-- What running a window call does: it puts the records in the order of the window and adds a
column, unless it fails. -/
theorem WindowCall.run_spec (call : WindowCall) (env : Env) (v : View) (s : Scope) :
    ∃ rs : List Record, rs.Perm v.records ∧
      match (Stage.exec (call.run env) v s).1 with
      | (.ok _, w) => ∃ values, values.length = rs.length ∧
        w = { v with records := rs }.pushColumn (.computed call.expr.text) values
      | (.error _, w) => w = { v with records := rs } := by
  -- up to the sort keys a failure leaves the records in their order
  rw [WindowCall.run, Stage.exec_bind, Stage.exec_liftEval]
  rcases Eval.exec (call.kind env) s with ⟨_ | kind, t⟩
  · exact ⟨v.records, .refl _, rfl⟩
  dsimp only [Stage.execThen]
  rw [Stage.exec_bind, Stage.exec_view]
  dsimp only [Stage.execThen]
  rw [Stage.exec_bind, Stage.exec_liftEval]
  rcases hk : Eval.exec (call.sortKeys env v) t with ⟨_ | keys, u⟩
  · exact ⟨v.records, .refl _, rfl⟩
  have hkeys : keys.length = v.records.length := by
    obtain ⟨columns, _, -, h⟩ := Eval.exec_bind_eq_ok hk
    cases h
    simp
  have perm : ((if call.order.isEmpty then keys.zip v.records
      else sortByKeys (keyOrders call.order) (keys.zip v.records)).map Prod.snd).Perm
        v.records := by
    split
    · exact .of_eq (List.map_snd_zip (Nat.le_of_eq hkeys.symm))
    · exact sorted_perm hkeys _
  refine ⟨_, perm, ?_⟩
  -- from here on the records are sorted, also if their values fail
  dsimp only [Stage.execThen]
  rw [Stage.exec_bind, Stage.exec_modifyView]
  dsimp only [Stage.execThen]
  rw [Stage.exec_bind, Stage.exec_liftEval]
  generalize hv : Eval.exec (call.values env _ _ _) u = result
  rcases result with ⟨_ | values, x⟩
  · rfl
  · exact ⟨values, WindowCall.length_values hv, rfl⟩

theorem WindowCall.run_grows {call : WindowCall} {env : Env} {v : View} {s : Scope}
    (missing : v.header.findComputed? call.expr.text = none) :
    v.Grows (Stage.exec (call.run env) v s).1.2 := by
  obtain ⟨rs, perm, h⟩ := call.run_spec env v s
  have reordered : v.Grows { v with records := rs } := (View.Change.reorder perm).grows
  generalize Stage.exec (call.run env) v s = r at h ⊢
  rcases r with ⟨⟨_ | _, w⟩, t⟩
  · dsimp only at h
    rw [h]
    exact reordered
  · obtain ⟨values, hlength, rfl⟩ := h
    have pushed := View.Change.push (v := { v with records := rs }) missing hlength
    exact reordered.trans pushed.grows

theorem runWindows_grows (calls : List WindowCall) (env : Env) :
    Stage.Grows (runWindows calls env) := by
  refine .forM fun call _ v s => ?_
  rw [Stage.exec_bind, Stage.exec_view]
  dsimp only [Stage.execThen]
  cases hf : v.header.findComputed? call.expr.text with
  | none => exact WindowCall.run_grows hf
  | some i => exact .refl v

/-! ## Fields and sort keys -/

namespace Stage

/-- The stage grows the view, and the indices that it gives are those of columns, if the known
ones are. -/
structure Picks (known : List Nat) (x : Stage α) (indices : α → List Nat) : Prop where
  grows : Grows x
  valid : ∀ v s w t a, (∀ i ∈ known, i < v.header.width) → exec x v s = ((.ok a, w), t) →
    ∀ i ∈ indices a, i < w.header.width

variable {known : List Nat}

/-- Known columns remain. -/
theorem Grows.picks {x : Stage α} (h : Grows x) : Picks known x fun _ => known where
  grows := h
  valid v s w t a hk hx i hi := by
    have grown := h v s
    rw [hx] at grown
    exact Nat.lt_of_lt_of_le (hk i hi) grown.width_le

theorem Picks.pure {indices : α → List Nat} {a : α} (h : indices a ⊆ known) :
    Picks known (pure a) indices where
  grows := .pure a
  valid v s w t b hk hx i hi := by
    cases hx
    exact hk i (h hi)

theorem Picks.bind {x : Stage α} {f : α → Stage β} {picked : α → List Nat}
    {indices : β → List Nat} (hx : Picks known x picked)
    (hf : ∀ a, Picks (picked a) (f a) indices) : Picks known (x >>= f) indices where
  grows := hx.grows.bind fun a => (hf a).grows
  valid v s w t b hk h := by
    rw [exec_bind] at h
    rcases hr : exec x v s with ⟨⟨_ | a, u⟩, r⟩ <;> rw [hr] at h
    · cases h
    · exact (hf a).valid u r w t b (hx.valid v s u r a hk hr) h

theorem Picks.mapM {f : α → Stage β} {indices : β → List Nat} {as : List α}
    (h : ∀ a ∈ as, Picks known (f a) indices) : Picks known (as.mapM f) (List.flatMap indices) := by
  induction as with
  | nil => exact .pure (List.nil_subset _)
  | cons a as ih =>
    rw [List.mapM_cons]
    refine ⟨(h a (by simp)).grows.bind fun b => Grows.bind (ih fun c hc => h c (by simp [hc])).grows
      fun bs => .pure _, fun v s w t bs hk hb => ?_⟩
    have rest := ih fun c hc => h c (by simp [hc])
    rw [exec_bind] at hb
    rcases hr : exec (f a) v s with ⟨⟨_ | b, u⟩, r⟩ <;> rw [hr] at hb
    · cases hb
    have grownFirst := (h a (by simp)).grows v s
    rw [hr] at grownFirst
    rw [execThen, exec_bind] at hb
    have grown := rest.grows u r
    rcases hs : exec (as.mapM f) u r with ⟨⟨_ | cs, x⟩, y⟩ <;> rw [hs] at hb grown
    · cases hb
    cases hb
    intro i hi
    -- a column that was there after the first element is there at the end
    rcases List.mem_append.mp (List.flatMap_cons ▸ hi) with hi | hi
    · have := (h a (by simp)).valid v s u r b hk hr i hi
      exact Nat.lt_of_lt_of_le this grown.width_le
    · exact rest.valid u r _ _ cs
        (fun j hj => Nat.lt_of_lt_of_le (hk j hj) grownFirst.width_le) hs i hi

theorem computedColumn_picks (o : Operand) (env : Env) :
    Picks known (computedColumn o env) fun i => [i] where
  grows := computedColumn_grows o env
  valid v s w t i _ h j hj := by
    rw [List.mem_singleton.mp hj]
    have hi : (exec (computedColumn o env) v s).1.1 = .ok i := by rw [h]
    have := computedColumn_lt hi
    rwa [h] at this

theorem columnIndex?_picks (table : Option String) (name : String) :
    Picks known (columnIndex? table name) Option.toList where
  grows := columnIndex?_grows table name
  valid v s w t i? _ h i hi := by
    rw [Option.mem_toList] at hi
    obtain ⟨rfl, hf⟩ := columnIndex?_eq_ok h
    exact Header.lt_of_find? (hi ▸ hf)

/-- What is read off the header as it is. -/
theorem Picks.of_view {f : View → Except QueryError (List Nat)}
    (h : ∀ v is, f v = .ok is → ∀ i ∈ is, i < v.header.width) :
    Picks known (do f (← Stage.view)) id where
  grows := Grows.view.bind fun v => .lift _
  valid v s w t is _ hx i hi := by
    rw [exec_bind, exec_view] at hx
    dsimp only [execThen] at hx
    rw [exec_lift] at hx
    cases hf : f v with
    | error e => rw [hf] at hx; cases hx
    | ok js =>
      rw [hf] at hx
      cases hx
      exact h v is hf i hi

end Stage

theorem SelectItem.resolve_picks (item : SelectItem) (env : Env) :
    Stage.Picks [] (item.resolve env) id := by
  have last (i : Nat) : Stage.Picks [i]
      (do Stage.addAlias i item.aliasName; return [i]) id :=
    (Stage.addAlias_grows i _).picks.bind fun _ => .pure (List.Subset.refl _)
  have found (i : Nat) : Stage.Picks [i] (pure i) fun i => [i] := .pure (List.Subset.refl _)
  unfold SelectItem.resolve
  split
  · exact .of_view (f := fun v => .ok v.header.tableColumns) fun v is h => by
      cases h
      exact fun i hi => Header.lt_of_mem_tableColumns hi
  · exact .of_view fun v is h => Header.lt_of_mem_columnsOf h
  · refine (Stage.columnIndex?_picks _ _).bind fun i? => ?_
    dsimp only
    split
    · exact (found _).bind last
    · exact (Stage.computedColumn_picks _ _).bind last
  · exact (Stage.computedColumn_picks _ _).bind last

theorem resolveItems_picks (items : List SelectItem) (env : Env) :
    Stage.Picks [] (resolveItems items env) id := by
  refine (runWindows_grows _ env).picks.bind fun _ => ?_
  refine (Stage.Picks.mapM fun item _ => item.resolve_picks env).bind fun is => .pure ?_
  rw [List.flatten_eq_flatMap]
  exact List.Subset.refl _

theorem OrderKey.resolve_grows (key : OrderKey) (env : Env) : Stage.Grows (key.resolve env) := by
  unfold OrderKey.resolve
  split
  · refine Stage.Grows.view.bind fun v => ?_
    split
    · exact .pure _
    · exact .throw _
  · refine (Stage.columnIndex?_grows _ _).bind fun i? => ?_
    split
    · exact .pure _
    · exact Stage.computedColumn_grows _ _
  · exact (runWindows_grows _ env).bind fun _ => Stage.computedColumn_grows _ _

end TableQuery
