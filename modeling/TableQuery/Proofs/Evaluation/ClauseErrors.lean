import TableQuery.Proofs.Evaluation.Errors

/-!
# Errors of clauses and sources

Window calls, clauses, joins and inline tables give no syntax errors but those that their parts and
the functions of the application give.
-/

namespace TableQuery

variable {A : QueryError → Prop} {env : Env}

/-! ## Window calls -/

/-- A window call whose operands give no syntax error but those in `A`. -/
structure WindowCall.Understood (A : QueryError → Prop) (call : WindowCall) : Prop where
  args : ∀ o ∈ call.args, o.Understood A
  partition : ∀ o ∈ call.partition, o.Understood A
  order : ∀ o ∈ call.order, o.toOperand.Understood A

/-- Wherever an argument stands, it gives no syntax error but those in `A`. -/
theorem understood_getElem? {args : List Operand} (ha : ∀ o ∈ args, o.Understood A) (i : Nat) :
    ∀ o ∈ args[i]?, o.Understood A :=
  fun o hm => ha o (List.mem_of_getElem? hm)

theorem evalTileCount_understood (name : String) {o : Operand} (ho : o.Understood A) :
    (evalTileCount name o env).Understood A := by
  refine (ho _).bind fun v => ?_
  split
  · exact .throw rfl
  · split
    · exact .throw rfl
    · exact .pure _

theorem evalDistance_understood (name : String) {o? : Option Operand}
    (ho : ∀ o ∈ o?, o.Understood A) : (evalDistance name env o?).Understood A := by
  unfold evalDistance
  split
  · exact .pure _
  · refine (ho _ rfl _).bind fun v => ?_
    split
    · exact .pure _
    · exact .throw rfl

theorem evalDetached_understood {o? : Option Operand} (ho : ∀ o ∈ o?, o.Understood A) :
    (evalDetached env o?).Understood A := by
  unfold evalDetached
  split
  · exact .pure _
  · exact ho _ rfl _

theorem evalNeighbours_understood (name : String) {args : List Operand}
    (ha : ∀ o ∈ args, o.Understood A) (p : Partition)
    (values : Int64 → Value → List Value → List Value) :
    (evalNeighbours name args env p values).Understood A := by
  refine (evalDistance_understood name (understood_getElem? ha 1)).bind fun offset => ?_
  refine (evalDetached_understood (understood_getElem? ha 2)).bind fun default => ?_
  split
  · exact .pure _
  · exact ((ha _ (by simp)).evalEach env _).bind fun vs => .pure _

theorem WindowFunction.routine_understood (f : WindowFunction) (name : String)
    {args : List Operand} (ha : ∀ o ∈ args, o.Understood A) (p : Partition) :
    (f.routine name args env p).Understood A := by
  unfold WindowFunction.routine
  split
  · exact .pure _
  · exact .pure _
  · exact .pure _
  · exact .pure _
  · exact .pure _
  · exact (evalTileCount_understood name (ha _ (by simp))).bind fun n => .pure _
  · exact ((ha _ (by simp)).evalEach env _).bind fun vs => .pure _
  · exact ((ha _ (by simp)).evalEach env _).bind fun vs => .pure _
  · exact evalNeighbours_understood name ha p _
  · exact evalNeighbours_understood name ha p _
  · exact .pure _

/-- A reducer that gives no syntax error but those in `A`. -/
def FrameReducer.Understood (A : QueryError → Prop) (reduce : FrameReducer) : Prop :=
  ∀ vs, TableQuery.Understood A (reduce vs)

theorem frameReducer_yields (name : String) {args : List Operand}
    (ha : ∀ o ∈ args, o.Understood A) :
    (frameReducer name args env).Yields A (FrameReducer.Understood A) := by
  have arity (a : Arity) : (liftM (checkArity name a args.length) : Eval Unit).Understood A :=
    .lift (checkArity_understood _ _ _)
  unfold frameReducer
  split
  · exact (arity _).bind_yields fun _ => .pure fun _ => .ok _
  · dsimp only
    split
    · refine (arity _).bind_yields fun _ => ?_
      split
      · rename_i o found
        refine (understood_getElem? ha 1 o found _).bind_yields fun v => ?_
        exact (Eval.Understood.pure _).bind_yields fun separator => .pure fun _ => .ok _
      · exact (Eval.Understood.pure _).bind_yields fun separator => .pure fun _ => .ok _
    · refine (userFunction?_yields name).bind fun f? hf => ?_
      split
      · refine (arity _).bind_yields fun _ => ?_
        refine Eval.Understood.bind_yields (.lift (checkArity_understood _ _ _)) fun _ => ?_
        refine (evalAll_understood (fun o hm => ha o (List.mem_of_mem_tail hm)) _).bind_yields ?_
        exact fun extra => .pure fun vs => hf _ rfl vs extra
      · exact .throw rfl

theorem evalFrameValues_understood (name : String) {args : List Operand}
    (ha : ∀ o ∈ args, o.Understood A) (p : Partition) :
    (evalFrameValues name args env p).Understood A := by
  unfold evalFrameValues
  split
  · exact .pure _
  · split
    · split
      · exact .pure _
      · exact .throw rfl
    · exact .throw rfl
    · exact (ha _ (by simp)).evalEach env _

theorem aggregateRoutine_understood {call : WindowCall} (hc : call.Understood A)
    {reduce : FrameReducer} (hr : reduce.Understood A) (p : Partition) :
    (aggregateRoutine call env reduce p).Understood A := by
  refine (evalFrameValues_understood call.name hc.args p).bind fun vs => ?_
  dsimp only
  split
  · exact (Eval.Understood.lift (hr _)).bind fun v => .pure _
  · exact .mapM fun i _ => .lift (hr _)

/-- A kind of window call that gives no syntax error but those in `A`. -/
def WindowKind.Understood (A : QueryError → Prop) : WindowKind → Prop
  | function _ => True
  | aggregate reduce => reduce.Understood A

namespace WindowCall

variable {call : WindowCall}

theorem kind_yields (hc : call.Understood A) :
    (call.kind env).Yields A (WindowKind.Understood A) := by
  unfold kind
  split
  · refine Eval.Understood.bind_yields (.lift (checkArity_understood _ _ _)) fun _ => ?_
    exact .pure trivial
  · exact (frameReducer_yields call.name hc.args).bind fun reduce hr => .pure hr

theorem routine_understood (hc : call.Understood A) {kind : WindowKind} (hk : kind.Understood A)
    (p : Partition) : (call.routine env kind p).Understood A := by
  cases kind with
  | function f => exact f.routine_understood call.name hc.args p
  | aggregate reduce => exact aggregateRoutine_understood hc hk p

theorem sortKeys_understood (hc : call.Understood A) (v : View) :
    (call.sortKeys env v).Understood A :=
  (Eval.Understood.mapM fun o hm => (hc.order o hm).evalEach env _).bind fun _ => .pure _

theorem values_understood (hc : call.Understood A) {routine : WindowRoutine}
    (hr : ∀ p, (routine p).Understood A) (v : View) (keys : List (List SortKey)) :
    (call.values env routine v keys).Understood A := by
  refine (Eval.Understood.mapM fun b _ => evalAll_understood hc.partition _).bind fun ks => ?_
  refine (Eval.Understood.mapM fun is _ => ?_).bind fun pairs => .pure _
  exact (hr _).bind fun vs => .pure _

theorem run_understood (hc : call.Understood A) : (call.run env).Understood A := by
  refine Stage.Understood.liftEval_bind (kind_yields hc) fun kind hk => ?_
  refine Stage.Understood.view.bind fun v => ?_
  refine Stage.Understood.liftEval_bind (sortKeys_understood hc v) fun keys _ => ?_
  refine (Stage.Understood.modifyView _).bind fun _ => ?_
  refine Stage.Understood.liftEval_bind
    (values_understood hc (fun p => routine_understood hc hk p) _ _) fun values _ => ?_
  exact .modifyView _

end WindowCall

theorem runWindows_understood {calls : List WindowCall} (hc : ∀ c ∈ calls, c.Understood A) :
    (runWindows calls env).Understood A := by
  refine .forM fun call hm => Stage.Understood.view.bind fun v => ?_
  split
  · exact WindowCall.run_understood (hc call hm)
  · exact .pure _

/-! ## Columns -/

theorem Stage.computedColumn_understood {o : Operand} (ho : o.Understood A) :
    (Stage.computedColumn o env).Understood A := by
  refine Stage.Understood.view.bind fun v => ?_
  split
  · exact .pure _
  · refine Stage.Understood.liftEval_bind (ho.evalEach env _) fun values _ => ?_
    exact (Stage.Understood.modifyView _).bind fun _ => .pure _

theorem Stage.addAlias_understood (i : Nat) (aliasName : Option String) :
    (Stage.addAlias i aliasName).Understood A := by
  cases aliasName with
  | some name => exact .modifyView _
  | none => exact .pure _

theorem Stage.columnIndex?_understood (table : Option String) (name : String) :
    (Stage.columnIndex? table name).Understood A := by
  refine Stage.Understood.view.bind fun v => ?_
  refine (Stage.Understood.lift (v.header.find?_understood table name)).bind fun i? => ?_
  split
  · exact .pure _
  · dsimp only
    split
    · exact .throw rfl
    · exact .pure _

/-! ## The select list -/

/-- A field that gives no syntax error but those in `A`. -/
structure SelectItem.Understood (A : QueryError → Prop) (item : SelectItem) : Prop where
  value : item.toOperand.Understood A
  windows : ∀ c ∈ item.windows, c.Understood A

theorem SelectItem.Understood.resolve {item : SelectItem} (hi : item.Understood A) :
    (item.resolve env).Understood A := by
  have computed : (Stage.computedColumn item.toOperand env).Understood A :=
    Stage.computedColumn_understood hi.value
  have last (i : Nat) : Stage.Understood A (do Stage.addAlias i item.aliasName; return [i]) :=
    (Stage.addAlias_understood i _).bind fun _ => .pure _
  unfold SelectItem.resolve
  split
  · exact Stage.Understood.view.bind fun v => .pure _
  · exact Stage.Understood.view.bind fun v => .lift (v.header.columnsOf_understood _)
  · refine (Stage.columnIndex?_understood _ _).bind fun i? => ?_
    dsimp only
    split
    · exact (Stage.Understood.pure _).bind last
    · exact computed.bind last
  · exact computed.bind last

section

variable {items : List SelectItem} (hi : ∀ item ∈ items, item.Understood A)

include hi

theorem resolveItems_understood : (resolveItems items env).Understood A := by
  have windows : ∀ c ∈ items.flatMap SelectItem.windows, c.Understood A := by
    intro c hc
    obtain ⟨item, hm, hw⟩ := List.mem_flatMap.mp hc
    exact (hi item hm).windows c hw
  refine (runWindows_understood windows).bind fun _ => ?_
  exact (Stage.Understood.mapM fun item hm => (hi item hm).resolve).bind fun indices => .pure _

theorem resolveOrGroup_understood : (resolveOrGroup items env).Understood A := by
  have resolved : (resolveItems items env).Understood A := resolveItems_understood hi
  refine Stage.Understood.view.bind fun v => resolved.tryCatch fun e he => ?_
  refine Stage.Understood.view.bind fun v => ?_
  split
  · exact (Stage.Understood.modifyView _).bind fun _ => resolved
  · exact .rethrow he

theorem select_understood : (select items env).Understood A := by
  refine (Stage.Understood.modifyView _).bind fun _ => ?_
  exact (resolveOrGroup_understood hi).bind fun indices => .modifyView _

end

/-! ## Order -/

/-- A sort key that gives no syntax error but those in `A`. -/
structure OrderKey.Understood (A : QueryError → Prop) (key : OrderKey) : Prop where
  value : key.toOperand.Understood A
  windows : ∀ c ∈ key.windows, c.Understood A

theorem OrderKey.Understood.resolve {key : OrderKey} (hk : key.Understood A) :
    (key.resolve env).Understood A := by
  have computed : (Stage.computedColumn key.toOperand env).Understood A :=
    Stage.computedColumn_understood hk.value
  unfold OrderKey.resolve
  split
  · refine Stage.Understood.view.bind fun v => ?_
    split
    · exact .pure _
    · exact .throw rfl
  · refine (Stage.columnIndex?_understood _ _).bind fun i? => ?_
    split
    · exact .pure _
    · exact computed
  · exact (runWindows_understood hk.windows).bind fun _ => computed

theorem orderBy_understood {keys : List OrderKey} (hk : ∀ key ∈ keys, key.Understood A) :
    (orderBy keys env).Understood A := by
  refine (Stage.Understood.mapM fun key hm => (hk key hm).resolve).bind fun is => ?_
  exact .modifyView _

/-! ## Clauses on a view -/

namespace View

variable (v : View)

theorem clause_understood {α : Type} (part : Option α) {apply : α → Eval View}
    (h : ∀ x ∈ part, (apply x).Understood A) : (v.clause part apply).Understood A := by
  cases part with
  | none => exact .pure _
  | some x => exact h x rfl

theorem keepWhere_understood {condition : Operand} (hc : condition.Understood A) :
    (v.keepWhere condition env).Understood A := by
  refine (Eval.Understood.mapM fun b _ => ?_).bind fun flags => .pure _
  exact (hc _).bind fun value => .pure _

theorem having_understood {condition : Operand} (hc : condition.Understood A) :
    (v.having condition env).Understood A := by
  refine (v.keepWhere_understood hc).tryCatch fun e he => ?_
  split
  · exact keepWhere_understood _ hc
  · exact .rethrow he

theorem groupBy_understood {items : List Operand} (hi : ∀ o ∈ items, o.Understood A) :
    (v.groupBy items env).Understood A := by
  refine (Eval.Understood.mapM fun b _ => evalAll_understood hi _).bind fun keys => ?_
  exact (Eval.Understood.lift (v.header.addGroupKeys_understood _)).bind fun header => .pure _

theorem selectFrom_understood {condition having : Option Operand} {groups : List Operand}
    {items : List SelectItem} (hw : ∀ o ∈ condition, o.Understood A)
    (hg : ∀ o ∈ groups, o.Understood A) (hh : ∀ o ∈ having, o.Understood A)
    (hi : ∀ item ∈ items, item.Understood A) (distinct : Bool) :
    (v.selectFrom condition groups having items distinct env).Understood A := by
  refine (v.clause_understood _ fun c hc => keepWhere_understood _ (hw c hc)).bind fun v => ?_
  have rest (v : View) : Eval.Understood A (do
      let v ← v.clause having fun c => v.having c env
      let v ← (select items env).runOn v
      return if distinct then v.distinct env.clock else v) := by
    refine (v.clause_understood _ fun c hc => v.having_understood (hh c hc)).bind fun v => ?_
    exact ((select_understood hi).runOn v).bind fun v => .pure _
  dsimp only
  split
  · exact (Eval.Understood.pure _).bind rest
  · exact (v.groupBy_understood hg).bind rest

theorem offset_understood {o : Operand} (ho : o.Understood A) : (v.offset o env).Understood A := by
  refine (ho env).bind fun value => ?_
  split
  · exact .pure _
  · exact .throw rfl

theorem limit_understood {clause : LimitClause} (hc : clause.count.Understood A) :
    (v.limit clause env).Understood A := by
  have last (count : Nat) : Eval.Understood A (return v.take count clause.ties) := .pure _
  refine (hc env).bind fun value => ?_
  dsimp only
  split
  · split
    · exact (Eval.Understood.pure _).bind last
    · exact (Eval.Understood.throw rfl).bind last
  · split
    · exact (Eval.Understood.pure _).bind last
    · exact (Eval.Understood.throw rfl).bind last

theorem finish_understood {keys : List OrderKey} {offset : Option Operand}
    {limit : Option LimitClause} (hk : ∀ key ∈ keys, key.Understood A)
    (ho : ∀ o ∈ offset, o.Understood A) (hl : ∀ c ∈ limit, c.count.Understood A) :
    (v.finish keys offset limit env).Understood A := by
  have rest (v : View) : Eval.Understood A (do
      let v ← v.clause offset fun o => v.offset o env
      let v ← v.clause limit fun c => v.limit c env
      return v.fix) := by
    refine (v.clause_understood _ fun o hm => v.offset_understood (ho o hm)).bind fun v => ?_
    exact (v.clause_understood _ fun c hm => v.limit_understood (hl c hm)).bind fun v => .pure _
  unfold finish
  dsimp only
  split
  · exact (Eval.Understood.pure _).bind rest
  · exact ((orderBy_understood hk).runOn v).bind rest

theorem combine_understood (clock : Calendar.Clock) (op : SetOp) (all : Bool)
    (expression : String) (w : View) : Understood A (combine clock op all expression v w) := by
  unfold combine
  split
  · exact .error rfl
  · exact .ok _

end View

/-! ## Joins -/

theorem columnsEqual_understood (a b : Option String × String) :
    (columnsEqual a b env).Understood A := by
  refine (Eval.Understood.lift (Env.columnIn_understood _ _ _)).bind fun x => ?_
  exact (Eval.Understood.lift (Env.columnIn_understood _ _ _)).bind fun y => .pure _

/-- A join condition that gives no syntax error but those in `A`. -/
def JoinCondition.Understood (A : QueryError → Prop) (c : JoinCondition) : Prop :=
  ∀ env, (c.eval env).Understood A

theorem columnsEqual_foldl_understood
    (pairs : List ((Option String × String) × Option String × String)) {x : Eval Value}
    (hx : x.Understood A) : (pairs.foldl (fun before (a, b) =>
      evalLogic .and before (columnsEqual a b env)) x).Understood A := by
  induction pairs generalizing x with
  | nil => exact hx
  | cons p rest ih => exact ih (evalLogic_understood .and hx (columnsEqual_understood _ _))

theorem equalityCondition_understood (left right : Header) (pairs : List (Nat × Nat)) :
    ∀ c ∈ equalityCondition left right pairs, c.Understood A := by
  intro c hc env
  unfold equalityCondition at hc
  split at hc
  · cases hc
  · cases hc
    exact columnsEqual_foldl_understood _ (columnsEqual_understood _ _)

theorem usingPairs_understood (left right : Header) (names : List String) :
    Understood A (usingPairs left right names) :=
  .mapM fun name => (left.find_understood none name).bind fun _ =>
    (right.find_understood none name).bind fun _ => .ok _

/-- The condition of a join, if it is written out, gives no syntax error but those in `A`. -/
def JoinOn.Understood (A : QueryError → Prop) (on : JoinOn) : Prop :=
  ∀ c, on = .condition c → c.Understood A

namespace JoinOn

variable {on : JoinOn}

theorem pairs?_understood (on : JoinOn) (left right : Header) :
    TableQuery.Understood A (on.pairs? left right) := by
  cases on with
  | columns names => exact (usingPairs_understood left right names).map some
  | always | natural | condition => exact .ok _

theorem Understood.condition? (ho : on.Understood A) (left right : Header)
    (pairs? : Option (List (Nat × Nat))) : ∀ c ∈ on.condition? left right pairs?,
      c.Understood A := by
  intro c hc
  cases pairs? with
  | some pairs => exact equalityCondition_understood left right pairs c hc
  | none =>
    cases on with
    | condition d =>
      cases hc
      exact ho _ rfl
    | always | natural | columns => cases hc

end JoinOn

theorem matchJoin_understood (kind : JoinKind) (left right : View)
    {condition : Option JoinCondition} (hc : ∀ c ∈ condition, c.Understood A) :
    (matchJoin kind left right condition env).Understood A := by
  have test (header : Header) (r : Record) : (testPair condition env header r).Understood A := by
    cases condition with
    | none => exact .pure _
    | some c => exact (hc c rfl _).bind fun v => .pure _
  have tests (r : Record) : ((matcherOf kind left right
      (testPair condition env (left.header.append right.header))).test r).Understood A := by
    cases kind <;> exact test _ r
  refine Eval.Understood.bind (Eval.Understood.bind (.mapM fun range _ => ?_) fun results =>
    .pure _) fun result => .pure _
  refine (Eval.Understood.mapM fun d _ => ?_).bind fun results => .pure _
  exact (Eval.Understood.mapM fun other _ => tests _).bind fun flags => .pure _

theorem joinViews_understood (kind : JoinKind) {on : JoinOn} (ho : on.Understood A)
    (left right : View) : (joinViews kind on left right env).Understood A := by
  refine (Eval.Understood.lift (on.pairs?_understood _ _)).bind fun pairs? => ?_
  dsimp only
  split
  · refine (Eval.Understood.pure _).bind fun joined => ?_
    cases pairs? <;> exact .pure _
  · refine (matchJoin_understood kind left right (ho.condition? _ _ _)).bind fun joined => ?_
    cases pairs? <;> exact .pure _

/-! ## Sources -/

theorem loadNamed_understood (name : String) (aliasName : Option String) :
    (loadNamed name aliasName env).Understood A := by
  have load : Understood A (env.settings.catalog.load name) := by
    unfold Catalog.load
    split
    · exact .ok _
    · exact .error rfl
  unfold loadNamed
  split
  · exact .pure _
  · refine Eval.Understood.get.bind fun s => ?_
    split
    · exact .pure _
    · exact (Eval.Understood.lift load).bind fun v => .pure _

theorem loadStdin_understood (aliasName : Option String) :
    (loadStdin aliasName env).Understood A := by
  have load : Understood A env.settings.catalog.loadStdin := by
    unfold Catalog.loadStdin
    split
    · exact .ok _
    · exact .error rfl
  exact (Eval.Understood.lift load).bind fun v => .pure _

theorem sourceOfResult_understood (aliasName : Option String) (columns : List String)
    (result : View) : Understood A (sourceOfResult aliasName columns result) := by
  unfold sourceOfResult
  dsimp only
  split
  · exact .error rfl
  · exact .ok _

theorem evalRows_understood {rows : List (List Operand)}
    (hr : ∀ row ∈ rows, ∀ o ∈ row, o.Understood A) (width : Nat) :
    (evalRows width env rows).Understood A := by
  induction rows with
  | nil => exact .pure _
  | cons row rows ih =>
    have rest : Eval.Understood A (do
        let vs ← evalAll row env
        return vs :: (← evalRows width env rows)) :=
      (evalAll_understood (hr row (by simp)) env).bind fun vs =>
        (ih fun r hm => hr r (by simp [hm])).bind fun vss => .pure _
    unfold evalRows
    dsimp only
    split
    · exact (Eval.Understood.throw rfl).bind fun _ => rest
    · exact rest

theorem loadValues_understood {rows : List (List Operand)}
    (hr : ∀ row ∈ rows, ∀ o ∈ row, o.Understood A) (aliasName : Option String)
    (columns : List String) : (loadValues rows aliasName columns env).Understood A := by
  refine (evalRows_understood hr _).bind fun values => ?_
  dsimp only
  split
  · exact (Eval.Understood.throw rfl).bind fun _ => .pure _
  · exact .pure _

/-- A loader that gives no syntax error but those in `A`. -/
def LoaderUnderstood (A : QueryError → Prop) (load : Env → Eval View) : Prop :=
  ∀ env, (load env).Understood A

theorem loadAll_understood {loads : List (Env → Eval View)}
    (hl : ∀ load ∈ loads, LoaderUnderstood A load) : (loadAll env loads).Understood A := by
  cases loads with
  | nil => exact .pure _
  | cons first rest =>
    refine (hl first (by simp) env).bind fun v => .foldlM (fun load hm v => ?_) v
    exact (hl load (by simp [hm]) env).bind fun w => .pure _

/-! ## Inline tables -/

theorem inlineView_understood (name : String) (columns : List String) (result : View) :
    Understood A (inlineView name columns result) := by
  unfold inlineView
  split
  · exact .error rfl
  · exact .ok _

/-- A union whose sides give no syntax error but those in `A`. -/
structure UnionParts.Understood (A : QueryError → Prop) (parts : UnionParts) : Prop where
  anchor : LoaderUnderstood A parts.anchor
  runStep : LoaderUnderstood A parts.runStep

theorem recursiveRounds_understood (name : String) (header : Header) {parts : UnionParts}
    (hp : parts.Understood A) (rounds : Nat) (seen : List String) (working : List Record) :
    (recursiveRounds name header parts env rounds seen working).Understood A := by
  induction rounds generalizing seen working with
  | zero => exact .throw rfl
  | succ rounds ih =>
    unfold recursiveRounds
    dsimp only
    split
    · exact .pure _
    · refine (hp.runStep _).bind fun next => ?_
      split
      · exact .throw rfl
      · exact (ih _ _).bind fun rest => .pure _

theorem inlineTable_understood (recursive : Bool) (name : String) (columns : List String)
    {parts? : Option UnionParts} (hp : ∀ parts ∈ parts?, parts.Understood A)
    {run : Env → Eval View} (hr : LoaderUnderstood A run) :
    (inlineTable recursive name columns parts? run env).Understood A := by
  have plain : Eval.Understood A (do inlineView name columns (← run env)) :=
    (hr env).bind fun v => .lift (inlineView_understood name columns v)
  unfold inlineTable
  split
  · split
    · refine ((hp _ rfl).anchor env).bind fun anchor => ?_
      refine (Eval.Understood.lift (inlineView_understood _ _ _)).bind fun first => ?_
      exact (recursiveRounds_understood name _ (hp _ rfl) _ _ _).bind fun added => .pure _
    · exact plain
  · exact plain

end TableQuery
