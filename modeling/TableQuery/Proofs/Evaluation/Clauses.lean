import TableQuery.Proofs.Evaluation.Calls

/-!
# Agreement of window calls and clauses
-/

namespace TableQuery

variable {I : Scope → Prop} {P : Part → Prop} {R : Env → Env → Prop}

/-! ## Window calls -/

/-- The operands of a window call have the same meaning in related environments. -/
structure WindowCall.Agrees (I : Scope → Prop) (R : Env → Env → Prop) (call : WindowCall) :
    Prop where
  args : ∀ o ∈ call.args, o.Agrees I R
  partition : ∀ o ∈ call.partition, o.Agrees I R
  order : ∀ o ∈ call.order, o.toOperand.Agrees I R

theorem evalTileCount_same (A : Env.Agreement I P R) (name : String) {o : Operand}
    (ho : o.Agrees I R) {a b : Env} (h : R a b) :
    Eval.Same I (evalTileCount name o a) (evalTileCount name o b) := by
  refine (ho _ _ (A.detached h)).bind fun v => ?_
  split
  · exact .throw _
  · split
    · exact .throw _
    · exact .pure _

theorem evalDistance_same (A : Env.Agreement I P R) (name : String) {o? : Option Operand}
    (ho : ∀ o ∈ o?, o.Agrees I R) {a b : Env} (h : R a b) :
    Eval.Same I (evalDistance name a o?) (evalDistance name b o?) := by
  unfold evalDistance
  split
  · exact .pure _
  · refine (ho _ rfl _ _ (A.detached h)).bind fun v => ?_
    split
    · exact .pure _
    · exact .throw _

theorem evalDetached_same (A : Env.Agreement I P R) {o? : Option Operand}
    (ho : ∀ o ∈ o?, o.Agrees I R) {a b : Env} (h : R a b) :
    Eval.Same I (evalDetached a o?) (evalDetached b o?) := by
  unfold evalDetached
  split
  · exact .pure _
  · exact ho _ rfl _ _ (A.detached h)

/-- An argument that agrees wherever it stands. -/
theorem agrees_getElem? {args : List Operand} (ha : ∀ o ∈ args, o.Agrees I R) (i : Nat) :
    ∀ o ∈ args[i]?, o.Agrees I R :=
  fun o hm => ha o (List.mem_of_getElem? hm)

theorem evalNeighbours_same (A : Env.Agreement I P R) (name : String) {args : List Operand}
    (ha : ∀ o ∈ args, o.Agrees I R) {a b : Env} (h : R a b) (p : Partition)
    (values : Int64 → Value → List Value → List Value) :
    Eval.Same I (evalNeighbours name args a p values) (evalNeighbours name args b p values) := by
  refine (evalDistance_same A name (agrees_getElem? ha 1) h).bind fun offset => ?_
  refine (evalDetached_same A (agrees_getElem? ha 2) h).bind fun default => ?_
  split
  · exact .pure _
  · exact (Operand.evalEach_same A (ha _ (by simp)) h _).bind fun vs => .pure _

theorem WindowFunction.routine_same (A : Env.Agreement I P R) (f : WindowFunction) (name : String)
    {args : List Operand} (ha : ∀ o ∈ args, o.Agrees I R) {a b : Env} (h : R a b) (p : Partition) :
    Eval.Same I (f.routine name args a p) (f.routine name args b p) := by
  unfold WindowFunction.routine
  split
  · exact .pure _
  · exact .pure _
  · exact .pure _
  · exact .pure _
  · exact .pure _
  · exact (evalTileCount_same A name (ha _ (by simp)) h).bind fun n => .pure _
  · exact (Operand.evalEach_same A (ha _ (by simp)) h _).bind fun vs => .pure _
  · exact (Operand.evalEach_same A (ha _ (by simp)) h _).bind fun vs => .pure _
  · exact evalNeighbours_same A name ha h p _
  · exact evalNeighbours_same A name ha h p _
  · exact .pure _

theorem frameReducer_same (A : Env.Agreement I P R) (name : String) {args : List Operand}
    (ha : ∀ o ∈ args, o.Agrees I R) {a b : Env} (h : R a b) :
    Eval.Same I (frameReducer name args a) (frameReducer name args b) := by
  unfold frameReducer
  rw [A.clock h]
  split
  · exact (Eval.Same.lift _).bind fun _ => .pure _
  · dsimp only
    split
    · refine (Eval.Same.lift _).bind fun _ => ?_
      split
      · rename_i o ho
        refine (agrees_getElem? ha 1 o ho _ _ (A.detached h)).bind fun v => ?_
        exact (Eval.Same.pure _).bind fun separator => .pure _
      · exact (Eval.Same.pure _).bind fun separator => .pure _
    · refine (userFunction?_same name).bind fun f? => ?_
      split
      · refine (Eval.Same.lift _).bind fun _ => (Eval.Same.lift _).bind fun _ => ?_
        refine (evalAll_same (fun o hm => ha o (List.mem_of_mem_tail hm)) (A.detached h)).bind ?_
        exact fun extra => .pure _
      · exact .throw _

theorem evalFrameValues_same (A : Env.Agreement I P R) (name : String) {args : List Operand}
    (ha : ∀ o ∈ args, o.Agrees I R) {a b : Env} (h : R a b) (p : Partition) :
    Eval.Same I (evalFrameValues name args a p) (evalFrameValues name args b p) := by
  unfold evalFrameValues
  split
  · exact .pure _
  · split
    · split
      · exact .pure _
      · exact .throw _
    · exact .throw _
    · exact Operand.evalEach_same A (ha _ (by simp)) h _

theorem aggregateRoutine_same (A : Env.Agreement I P R) {call : WindowCall}
    (hc : call.Agrees I R) {a b : Env} (h : R a b) (reduce : FrameReducer) (p : Partition) :
    Eval.Same I (aggregateRoutine call a reduce p) (aggregateRoutine call b reduce p) := by
  unfold aggregateRoutine
  rw [A.clock h]
  refine (evalFrameValues_same A call.name hc.args h p).bind fun vs => ?_
  dsimp only
  split
  · exact (Eval.Same.lift _).bind fun v => .pure _
  · exact .mapM fun i _ => .lift _

theorem WindowCall.kind_same (A : Env.Agreement I P R) {call : WindowCall}
    (hc : call.Agrees I R) {a b : Env} (h : R a b) :
    Eval.Same I (call.kind a) (call.kind b) := by
  unfold WindowCall.kind
  split
  · exact (Eval.Same.lift _).bind fun _ => .pure _
  · exact (frameReducer_same A call.name hc.args h).bind fun reduce => .pure _

theorem WindowCall.routine_same (A : Env.Agreement I P R) {call : WindowCall}
    (hc : call.Agrees I R) {a b : Env} (h : R a b) (kind : WindowKind) (p : Partition) :
    Eval.Same I (call.routine a kind p) (call.routine b kind p) := by
  cases kind with
  | function f => exact f.routine_same A call.name hc.args h p
  | aggregate reduce => exact aggregateRoutine_same A hc h reduce p

theorem WindowCall.sortKeys_same (A : Env.Agreement I P R) {call : WindowCall}
    (hc : call.Agrees I R) {a b : Env} (h : R a b) (v : View) :
    Eval.Same I (call.sortKeys a v) (call.sortKeys b v) := by
  unfold WindowCall.sortKeys
  rw [A.clock h]
  refine (Eval.Same.mapM fun o hm => ?_).bind fun columns => .pure _
  exact Operand.evalEach_same A (hc.order o hm) h _

theorem WindowCall.values_same (A : Env.Agreement I P R) {call : WindowCall}
    (hc : call.Agrees I R) {a b : Env} (h : R a b) (kind : WindowKind) (v : View)
    (keys : List (List SortKey)) :
    Eval.Same I (call.values a (call.routine a kind) v keys)
      (call.values b (call.routine b kind) v keys) := by
  unfold WindowCall.values
  rw [A.clock h]
  refine (Eval.Same.mapM fun x _ => evalAll_same hc.partition (A.bind h x)).bind fun ks => ?_
  refine (Eval.Same.mapM fun is _ => ?_).bind fun pairs => .pure _
  exact (WindowCall.routine_same A hc h kind _).bind fun vs => .pure _

theorem WindowCall.run_same (A : Env.Agreement I P R) {call : WindowCall}
    (hc : call.Agrees I R) {a b : Env} (h : R a b) : Stage.Same I (call.run a) (call.run b) := by
  refine (Stage.Same.liftEval (WindowCall.kind_same A hc h)).bind fun kind => ?_
  refine Stage.Same.view.bind fun v => ?_
  refine (Stage.Same.liftEval (WindowCall.sortKeys_same A hc h v)).bind fun keys => ?_
  refine (Stage.Same.modifyView _).bind fun _ => ?_
  refine (Stage.Same.liftEval (WindowCall.values_same A hc h kind _ _)).bind fun values => ?_
  exact .modifyView _

theorem runWindows_same (A : Env.Agreement I P R) {calls : List WindowCall}
    (hc : ∀ c ∈ calls, c.Agrees I R) {a b : Env} (h : R a b) :
    Stage.Same I (runWindows calls a) (runWindows calls b) := by
  refine .forM fun call hm => Stage.Same.view.bind fun v => ?_
  split
  · exact WindowCall.run_same A (hc call hm) h
  · exact .pure _

/-! ## Computed columns -/

theorem Stage.computedColumn_same (A : Env.Agreement I P R) {o : Operand} (ho : o.Agrees I R)
    {a b : Env} (h : R a b) :
    Stage.Same I (Stage.computedColumn o a) (Stage.computedColumn o b) := by
  refine Stage.Same.view.bind fun v => ?_
  split
  · exact .pure _
  · refine (Stage.Same.liftEval (Operand.evalEach_same A ho h _)).bind fun values => ?_
    exact (Stage.Same.modifyView _).bind fun _ => .pure _

theorem Stage.addAlias_same (i : Nat) (aliasName : Option String) :
    Stage.Same I (Stage.addAlias i aliasName) (Stage.addAlias i aliasName) := by
  unfold Stage.addAlias
  split
  · exact .modifyView _
  · exact .pure _

theorem Stage.columnIndex?_same (table : Option String) (name : String) :
    Stage.Same I (Stage.columnIndex? table name) (Stage.columnIndex? table name) := by
  refine Stage.Same.view.bind fun v => (Stage.Same.lift _).bind fun i? => ?_
  split
  · exact .pure _
  · dsimp only
    split
    · exact .throw _
    · exact .pure _

/-! ## The select list -/

/-- A field with the same meaning in related environments. -/
structure SelectItem.Agrees (I : Scope → Prop) (R : Env → Env → Prop) (item : SelectItem) :
    Prop where
  value : item.toOperand.Agrees I R
  windows : ∀ c ∈ item.windows, c.Agrees I R

theorem SelectItem.resolve_same (A : Env.Agreement I P R) {item : SelectItem}
    (hi : item.Agrees I R) {a b : Env} (h : R a b) :
    Stage.Same I (item.resolve a) (item.resolve b) := by
  have computed := Stage.computedColumn_same A hi.value h
  have last (i : Nat) : Stage.Same I (do Stage.addAlias i item.aliasName; return [i])
      (do Stage.addAlias i item.aliasName; return [i]) :=
    (Stage.addAlias_same i _).bind fun _ => .pure _
  unfold SelectItem.resolve
  split
  · exact Stage.Same.view.bind fun v => .pure _
  · exact Stage.Same.view.bind fun v => .lift _
  · refine (Stage.columnIndex?_same _ _).bind fun i? => ?_
    dsimp only
    split
    · exact (Stage.Same.pure _).bind last
    · exact computed.bind last
  · exact computed.bind last

theorem resolveItems_same (A : Env.Agreement I P R) {items : List SelectItem}
    (hi : ∀ item ∈ items, item.Agrees I R) {a b : Env} (h : R a b) :
    Stage.Same I (resolveItems items a) (resolveItems items b) := by
  have windows : ∀ c ∈ items.flatMap SelectItem.windows, c.Agrees I R := by
    intro c hc
    obtain ⟨item, hm, hw⟩ := List.mem_flatMap.mp hc
    exact (hi item hm).windows c hw
  refine (runWindows_same A windows h).bind fun _ => ?_
  exact (Stage.Same.mapM fun item hm => SelectItem.resolve_same A (hi item hm) h).bind
    fun indices => .pure _

theorem resolveOrGroup_same (A : Env.Agreement I P R) {items : List SelectItem}
    (hi : ∀ item ∈ items, item.Agrees I R) {a b : Env} (h : R a b) :
    Stage.Same I (resolveOrGroup items a) (resolveOrGroup items b) := by
  have resolved := resolveItems_same A hi h
  refine Stage.Same.view.bind fun v => resolved.tryCatch fun e => ?_
  refine Stage.Same.view.bind fun v => ?_
  split
  · exact (Stage.Same.modifyView _).bind fun _ => resolved
  · exact .throw _

theorem select_same (A : Env.Agreement I P R) {items : List SelectItem}
    (hi : ∀ item ∈ items, item.Agrees I R) {a b : Env} (h : R a b) :
    Stage.Same I (select items a) (select items b) := by
  refine (Stage.Same.modifyView _).bind fun _ => ?_
  exact (resolveOrGroup_same A hi h).bind fun indices => .modifyView _

/-! ## Order -/

/-- A sort key with the same meaning in related environments. -/
structure OrderKey.Agrees (I : Scope → Prop) (R : Env → Env → Prop) (key : OrderKey) : Prop where
  value : key.toOperand.Agrees I R
  windows : ∀ c ∈ key.windows, c.Agrees I R

theorem OrderKey.resolve_same (A : Env.Agreement I P R) {key : OrderKey} (hk : key.Agrees I R)
    {a b : Env} (h : R a b) : Stage.Same I (key.resolve a) (key.resolve b) := by
  have computed := Stage.computedColumn_same A hk.value h
  unfold OrderKey.resolve
  split
  · refine Stage.Same.view.bind fun v => ?_
    split
    · exact .pure _
    · exact .throw _
  · refine (Stage.columnIndex?_same _ _).bind fun i? => ?_
    split
    · exact .pure _
    · exact computed
  · exact (runWindows_same A hk.windows h).bind fun _ => computed

theorem orderBy_same (A : Env.Agreement I P R) {keys : List OrderKey}
    (hk : ∀ key ∈ keys, key.Agrees I R) {a b : Env} (h : R a b) :
    Stage.Same I (orderBy keys a) (orderBy keys b) := by
  unfold orderBy
  rw [A.clock h]
  refine (Stage.Same.mapM fun key hm => OrderKey.resolve_same A (hk key hm) h).bind fun is => ?_
  exact .modifyView _

/-! ## Clauses on a view -/

variable {α : Type}

theorem View.clause_same (v : View) (part : Option α) {apply apply' : α → Eval View}
    (h : ∀ x ∈ part, Eval.Same I (apply x) (apply' x)) :
    Eval.Same I (v.clause part apply) (v.clause part apply') := by
  cases part with
  | none => exact .pure _
  | some x => exact h x rfl

theorem View.keepWhere_same (A : Env.Agreement I P R) (v : View) {condition : Operand}
    (hc : condition.Agrees I R) {a b : Env} (h : R a b) :
    Eval.Same I (v.keepWhere condition a) (v.keepWhere condition b) := by
  refine (Eval.Same.mapM fun x _ => ?_).bind fun flags => .pure _
  exact (hc _ _ (A.bind h x)).bind fun value => .pure _

theorem View.having_same (A : Env.Agreement I P R) (v : View) {condition : Operand}
    (hc : condition.Agrees I R) {a b : Env} (h : R a b) :
    Eval.Same I (v.having condition a) (v.having condition b) := by
  refine (v.keepWhere_same A hc h).tryCatch fun e => ?_
  split
  · exact View.keepWhere_same A _ hc h
  · exact .throw _

theorem View.groupBy_same (A : Env.Agreement I P R) (v : View) {items : List Operand}
    (hi : ∀ o ∈ items, o.Agrees I R) {a b : Env} (h : R a b) :
    Eval.Same I (v.groupBy items a) (v.groupBy items b) := by
  unfold View.groupBy
  rw [A.clock h]
  refine (Eval.Same.mapM fun x _ => evalAll_same hi (A.bind h x)).bind fun keys => ?_
  exact (Eval.Same.lift _).bind fun header => .pure _

theorem View.selectFrom_same (A : Env.Agreement I P R) (v : View)
    {condition having : Option Operand} {groups : List Operand} {items : List SelectItem}
    (hw : ∀ o ∈ condition, o.Agrees I R)
    (hg : ∀ o ∈ groups, o.Agrees I R) (hh : ∀ o ∈ having, o.Agrees I R)
    (hi : ∀ item ∈ items, item.Agrees I R) (distinct : Bool) {a b : Env} (h : R a b) :
    Eval.Same I (v.selectFrom condition groups having items distinct a)
      (v.selectFrom condition groups having items distinct b) := by
  unfold View.selectFrom
  rw [A.clock h]
  refine (v.clause_same _ fun c hc => View.keepWhere_same A _ (hw c hc) h).bind fun v => ?_
  have rest (v : View) := (v.clause_same _ fun c hc => View.having_same A v (hh c hc) h).bind
    fun v => ((select_same A hi h).runOn v).bind fun v =>
      Eval.Same.pure (if distinct then v.distinct b.clock else v)
  dsimp only
  split
  · exact (Eval.Same.pure _).bind rest
  · exact (v.groupBy_same A hg h).bind rest

/-- A limit whose count has the same meaning in related environments. -/
def LimitClause.Agrees (I : Scope → Prop) (R : Env → Env → Prop) (clause : LimitClause) : Prop :=
  clause.count.Agrees I R

theorem View.offset_same (v : View) {o : Operand} (ho : o.Agrees I R) {a b : Env} (h : R a b) :
    Eval.Same I (v.offset o a) (v.offset o b) := by
  refine (ho a b h).bind fun value => ?_
  split
  · exact .pure _
  · exact .throw _

theorem View.limit_same (v : View) {clause : LimitClause} (hc : clause.Agrees I R) {a b : Env}
    (h : R a b) : Eval.Same I (v.limit clause a) (v.limit clause b) := by
  have last (count : Nat) : Eval.Same I (return v.take count clause.ties)
      (return v.take count clause.ties) := .pure _
  refine (hc a b h).bind fun value => ?_
  dsimp only
  split
  · split
    · exact (Eval.Same.pure _).bind last
    · exact (Eval.Same.throw _).bind last
  · split
    · exact (Eval.Same.pure _).bind last
    · exact (Eval.Same.throw _).bind last

theorem View.finish_same (A : Env.Agreement I P R) (v : View) {keys : List OrderKey}
    {offset : Option Operand} {limit : Option LimitClause} (hk : ∀ key ∈ keys, key.Agrees I R)
    (ho : ∀ o ∈ offset, o.Agrees I R) (hl : ∀ c ∈ limit, c.Agrees I R) {a b : Env} (h : R a b) :
    Eval.Same I (v.finish keys offset limit a) (v.finish keys offset limit b) := by
  have rest (v : View) := (v.clause_same _ fun o hm => View.offset_same v (ho o hm) h).bind
    fun v => (v.clause_same _ fun c hm => View.limit_same v (hl c hm) h).bind
      fun v => Eval.Same.pure v.fix
  unfold View.finish
  dsimp only
  split
  · exact (Eval.Same.pure _).bind rest
  · exact ((orderBy_same A hk h).runOn v).bind rest

end TableQuery
