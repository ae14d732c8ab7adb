import TableQuery.Proofs.Evaluation.ClauseErrors

/-!
# Errors of queries

Expressions and queries give no syntax errors but those with which functions of the application
answer. The proof goes by recursion on the syntax, along the recursion of the evaluation, with one
theorem for each of its functions.
-/

namespace TableQuery

variable {A : QueryError → Prop}

/-- What an expression is computed to, unless the record holds its value already. -/
theorem known_understood (env : Env) (e : Expr) {x : Eval Value} (hx : x.Understood A) :
    Eval.Understood A
      (match env.known? e with
        | some v => return v
        | none => x) := by
  split
  · exact .pure _
  · exact hx

theorem truth_understood {x : Eval Truth} (h : x.Understood A) :
    Eval.Understood A (do return Value.truth (← x)) :=
  h.bind fun t => .pure (Value.truth t)

/-- The rows of a list of values, or those of what is written in its place. -/
theorem rowsOr_understood {x : Eval Value} (hx : x.Understood A)
    {rows? : Option (Eval (List (List Value)))} (hr : ∀ rows ∈ rows?, rows.Understood A) :
    Eval.Understood A (rows?.getD (return [[← x]])) := by
  cases rows? with
  | some rows => exact hr rows rfl
  | none => exact hx.bind fun v => .pure _

mutual

theorem Expr.eval_understood (e : Expr) (env : Env) : (e.eval env).Understood A := by
  cases e with
  | literal l =>
    rw [Expr.eval]
    exact known_understood env (.literal l) (.pure _)
  | column table name =>
    rw [Expr.eval]
    exact known_understood env (.column table name) (.lift (Env.columnIn_understood _ _ _))
  | allColumns =>
    rw [Expr.eval]
    exact known_understood env .allColumns (.throw rfl)
  | tableColumns table =>
    rw [Expr.eval]
    exact known_understood env (.tableColumns table) (.throw rfl)
  | parens e =>
    rw [Expr.eval]
    exact known_understood env _ (e.eval_understood env)
  | arith op l r =>
    rw [Expr.eval]
    exact known_understood env _
      (evalArith_understood op (l.eval_understood env) (r.eval_understood env))
  | signed sign e =>
    rw [Expr.eval]
    exact known_understood env _ ((e.eval_understood env).bind fun v => .pure _)
  | concat items =>
    rw [Expr.eval]
    exact known_understood env _ (evalConcat_understood (operands_understood items) env "")
  | compare op l r =>
    have left := l.eval_understood env
    have right := r.eval_understood env
    have row := l.row?_understood env
    -- rows are compared in their own way
    by_cases hl : ∃ items, l = .rowValue items
    · obtain ⟨items, rfl⟩ := hl
      rw [Expr.eval]
      exact known_understood env _ (truth_understood (evalRowCompare_understood _ op
        (rowOperand_understood _ left row)
        (rowOperand_understood _ right (r.row?_understood env))))
    · have other (items : List Expr) (he : l = .rowValue items) : False := hl ⟨items, he⟩
      rw [Expr.eval]
      · exact known_understood env _ (left.bind fun x => right.bind fun y => .pure _)
      · exact other
  | is negated l r =>
    rw [Expr.eval]
    exact known_understood env _
      ((l.eval_understood env).bind fun x => (r.eval_understood env).bind fun y => .pure _)
  | between negated e low high =>
    rw [Expr.eval]
    exact known_understood env _ (truth_understood (evalBetween_understood _ negated
      (rowOperand_understood _ (e.eval_understood env) (e.row?_understood env))
      (rowOperand_understood _ (low.eval_understood env) (low.row?_understood env))
      (rowOperand_understood _ (high.eval_understood env) (high.row?_understood env))))
  | like negated l r =>
    rw [Expr.eval]
    exact known_understood env _
      ((l.eval_understood env).bind fun x => (r.eval_understood env).bind fun y => .pure _)
  | isIn negated e values =>
    rw [Expr.eval]
    refine known_understood env _ (.bind (evalQuantified_understood _ _ _
      (rowOperand_understood _ (e.eval_understood env) (e.row?_understood env)).row
      fun width => ?_) fun t => .pure _)
    exact rowsOr_understood (values.eval_understood env) (values.rows?_understood width env)
  | any op e values | all op e values =>
    rw [Expr.eval]
    refine known_understood env _ (truth_understood (evalQuantified_understood _ _ _
      (rowOperand_understood _ (e.eval_understood env) (e.row?_understood env)).row
      fun width => ?_))
    exact rowsOr_understood (values.eval_understood env) (values.rows?_understood width env)
  | existsIn q =>
    rw [Expr.eval]
    exact known_understood env _ ((q.run_understood env).bind fun v => .pure _)
  | subquery q =>
    rw [Expr.eval]
    exact known_understood env _
      ((q.run_understood env).bind fun v => .lift (valueOfResult_understood q v))
  | rowValue items | valueList items | window name distinct args partition order =>
    -- a window call is answered by its column or not at all
    rw [Expr.eval]
    exact known_understood env _ (.throw rfl)
  | call name args =>
    rw [Expr.eval]
    exact known_understood env _ (evalCall_understood _ name (operands_understood args) env)
  | aggregate name distinct args =>
    rw [Expr.eval]
    exact known_understood env _
      (evalAggregate_understood _ name distinct (operands_understood args) env)
  | listAggregate name distinct args order =>
    rw [Expr.eval]
    exact known_understood env _ (evalListAggregate_understood _ name distinct
      (operands_understood args) (sortOperands_understood order) env)
  | case operand branches otherwise =>
    rw [Expr.eval]
    exact known_understood env _ (evalCase_understood _ (optionEval_understood operand env)
      (branchEvals_understood branches env) (optionEval_understood otherwise env))
  | logic op l r =>
    rw [Expr.eval]
    exact known_understood env _
      (evalLogic_understood op (l.eval_understood env) (r.eval_understood env))
  | not e =>
    rw [Expr.eval]
    exact known_understood env _ ((e.eval_understood env).bind fun v => .pure _)
  | «variable» name =>
    rw [Expr.eval]
    exact known_understood env (.variable name)
      (Eval.Understood.get.bind fun s => .lift (s.variableValue_understood name))
  | assign name e =>
    rw [Expr.eval]
    exact known_understood env _
      ((e.eval_understood env).bind fun v => assignVariable_understood name v)
termination_by structural e

theorem Expr.row?_understood (e : Expr) (env : Env) : ∀ row ∈ e.row? env, row.Understood A := by
  intro row hr
  cases e with
  | rowValue items =>
    cases hr
    exact (evalAll_understood (operands_understood items) env).map some
  | subquery q =>
    cases hr
    exact (q.run_understood env).bind fun v => .lift (rowOfResult_understood q v)
  | _ => cases hr
termination_by structural e

theorem Expr.rows?_understood (e : Expr) (width : Nat) (env : Env) :
    ∀ rows ∈ e.rows? width env, rows.Understood A := by
  intro rows hr
  cases e with
  | valueList items =>
    cases hr
    exact listRows_understood items width env
  | subquery q =>
    cases hr
    exact (q.run_understood env).bind fun v => .lift (rowsOfResult_understood q width v)
  | _ => cases hr
termination_by structural e

theorem listRows_understood (items : List Expr) (width : Nat) (env : Env) :
    (listRows items width env).Understood A := by
  cases items with
  | nil => exact .pure _
  | cons item items =>
    rw [listRows]
    refine (evalListItem_understood width
      (rowOperand_understood _ (item.eval_understood env) (item.row?_understood env)) _).bind ?_
    exact fun row => (listRows_understood items width env).bind fun rows => .pure _
termination_by structural items

theorem operands_understood (es : List Expr) : ∀ o ∈ operands es, o.Understood A := by
  cases es with
  | nil =>
    intro o ho
    cases ho
  | cons e es =>
    rw [operands, List.forall_mem_cons]
    exact ⟨fun env => e.eval_understood env, operands_understood es⟩
termination_by structural es

theorem optionEval_understood (e? : Option Expr) (env : Env) :
    ∀ x ∈ optionEval e? env, x.Understood A := by
  intro x hx
  cases e? with
  | none => cases hx
  | some e =>
    cases hx
    exact e.eval_understood env
termination_by structural e?

theorem optionOperand_understood (e? : Option Expr) :
    ∀ o ∈ optionOperand e?, o.Understood A := by
  intro o ho
  cases e? with
  | none => cases ho
  | some e =>
    cases ho
    exact fun env => e.eval_understood env
termination_by structural e?

theorem branchEvals_understood (branches : List Branch) (env : Env) :
    ∀ b ∈ branchEvals branches env, b.1.Understood A ∧ b.2.Understood A := by
  match branches with
  | [] =>
    intro b hb
    cases hb
  | .mk condition result :: branches =>
    rw [branchEvals, List.forall_mem_cons]
    exact ⟨⟨condition.eval_understood env, result.eval_understood env⟩,
      branchEvals_understood branches env⟩
termination_by structural branches

theorem sortOperands_understood (items : List OrderItem) :
    ∀ o ∈ sortOperands items, o.toOperand.Understood A := by
  match items with
  | [] =>
    intro o ho
    cases ho
  | .mk key direction nulls :: items =>
    rw [sortOperands, List.forall_mem_cons]
    exact ⟨fun env => key.eval_understood env, sortOperands_understood items⟩
termination_by structural items

theorem Expr.windowCalls_understood (e : Expr) : ∀ c ∈ e.windowCalls, c.Understood A := by
  cases e with
  | literal | column | allColumns | tableColumns | existsIn | subquery | «variable» =>
    intro c hc
    cases hc
  | parens e | not e | signed _ e | assign _ e => exact e.windowCalls_understood
  | arith _ l r | compare _ l r | logic _ l r | is _ l r | like _ l r | isIn _ l r | any _ l r
  | all _ l r =>
    exact List.forall_mem_append.mpr ⟨l.windowCalls_understood, r.windowCalls_understood⟩
  | between _ e low high =>
    exact List.forall_mem_append.mpr ⟨List.forall_mem_append.mpr
      ⟨e.windowCalls_understood, low.windowCalls_understood⟩, high.windowCalls_understood⟩
  | concat items | rowValue items | valueList items | call _ items | aggregate _ _ items =>
    exact listWindows_understood items
  | listAggregate _ _ args order =>
    exact List.forall_mem_append.mpr
      ⟨listWindows_understood args, orderWindows_understood order⟩
  | window name distinct args partition order =>
    rw [Expr.windowCalls, List.forall_mem_cons, List.forall_mem_append, List.forall_mem_append]
    exact ⟨⟨operands_understood args, operands_understood partition,
      sortOperands_understood order⟩,
      ⟨listWindows_understood args, listWindows_understood partition⟩,
      orderWindows_understood order⟩
  | case operand branches otherwise =>
    rw [Expr.windowCalls, List.forall_mem_append, List.forall_mem_append]
    exact ⟨⟨optionWindows_understood operand, branchWindows_understood branches⟩,
      optionWindows_understood otherwise⟩
termination_by structural e

theorem listWindows_understood (es : List Expr) : ∀ c ∈ listWindows es, c.Understood A := by
  cases es with
  | nil =>
    intro c hc
    cases hc
  | cons e es =>
    exact List.forall_mem_append.mpr ⟨e.windowCalls_understood, listWindows_understood es⟩
termination_by structural es

theorem optionWindows_understood (e? : Option Expr) :
    ∀ c ∈ optionWindows e?, c.Understood A := by
  cases e? with
  | none =>
    intro c hc
    cases hc
  | some e => exact e.windowCalls_understood
termination_by structural e?

theorem orderWindows_understood (items : List OrderItem) :
    ∀ c ∈ orderWindows items, c.Understood A := by
  match items with
  | [] =>
    intro c hc
    cases hc
  | .mk key _ _ :: items =>
    exact List.forall_mem_append.mpr
      ⟨key.windowCalls_understood, orderWindows_understood items⟩
termination_by structural items

theorem branchWindows_understood (branches : List Branch) :
    ∀ c ∈ branchWindows branches, c.Understood A := by
  match branches with
  | [] =>
    intro c hc
    cases hc
  | .mk condition result :: branches =>
    exact List.forall_mem_append.mpr ⟨List.forall_mem_append.mpr
      ⟨condition.windowCalls_understood, result.windowCalls_understood⟩,
      branchWindows_understood branches⟩
termination_by structural branches

theorem Query.run_understood (q : Query) (env : Env) : (q.run env).Understood A := by
  match q with
  | .mk recursive tables body order offset limit =>
    rw [Query.run]
    refine (inlineTables_understood tables recursive env).bind fun env => ?_
    exact (body.run_understood env).bind fun v => v.finish_understood (orderKeys_understood order)
      (optionOperand_understood offset) limit.clause?_understood
termination_by structural q

theorem inlineTables_understood (tables : List InlineDef) (recursive : Bool) (env : Env) :
    (inlineTables tables recursive env).Understood A := by
  match tables with
  | [] => exact .pure _
  | .mk name columns q :: tables =>
    rw [inlineTables]
    refine (inlineTable_understood recursive name columns q.unionParts?_understood
      fun env => q.run_understood env).bind fun v => ?_
    exact inlineTables_understood tables recursive _
termination_by structural tables

theorem Query.unionParts?_understood (q : Query) :
    ∀ parts ∈ q.unionParts?, parts.Understood A := by
  match q with
  | .mk _ _ (.combine .union all left right) _ _ _ =>
    intro parts hp
    cases hp
    exact ⟨fun env => left.run_understood env, fun env => right.run_understood env⟩
  | .mk _ _ (.combine .except _ _ _) _ _ _ | .mk _ _ (.combine .intersect _ _ _) _ _ _
  | .mk _ _ (.select ..) _ _ _ | .mk _ _ (.nested _) _ _ _ =>
    intro parts hp
    cases hp
termination_by structural q

theorem Limit.clause?_understood (limit : Limit) :
    ∀ c ∈ limit.clause?, c.count.Understood A := by
  intro c hc
  cases limit with
  | all => cases hc
  | rows count percent ties =>
    cases hc
    exact fun env => count.eval_understood env
termination_by structural limit

theorem orderKeys_understood (items : List OrderItem) :
    ∀ key ∈ orderKeys items, key.Understood A := by
  match items with
  | [] =>
    intro key hk
    cases hk
  | .mk key direction nulls :: items =>
    rw [orderKeys, List.forall_mem_cons]
    exact ⟨⟨fun env => key.eval_understood env, key.windowCalls_understood⟩,
      orderKeys_understood items⟩
termination_by structural items

theorem Body.run_understood (body : Body) (env : Env) : (body.run env).Understood A := by
  cases body with
  | select distinct fields sources condition groups having =>
    rw [Body.run]
    refine (loadAll_understood (loaders_understood sources)).bind fun v => ?_
    exact v.selectFrom_understood (optionOperand_understood condition)
      (operands_understood groups) (optionOperand_understood having)
      (selectItems_understood fields) distinct
  | combine op all left right =>
    rw [Body.run]
    exact (left.run_understood env).bind fun v => (right.run_understood env).bind fun w =>
      .lift (v.fix.combine_understood _ op all _ w.fix)
  | nested q => exact q.run_understood env
termination_by structural body

theorem selectItems_understood (fields : List Field) :
    ∀ item ∈ selectItems fields, item.Understood A := by
  match fields with
  | [] =>
    intro item hi
    cases hi
  | .mk e aliasName :: fields =>
    rw [selectItems, List.forall_mem_cons]
    exact ⟨⟨fun env => e.eval_understood env, e.windowCalls_understood⟩,
      selectItems_understood fields⟩
termination_by structural fields

theorem loaders_understood (sources : List Source) :
    ∀ load ∈ loaders sources, LoaderUnderstood A load := by
  cases sources with
  | nil =>
    intro load hl
    cases hl
  | cons s sources =>
    rw [loaders, List.forall_mem_cons]
    exact ⟨fun env => s.load_understood env, loaders_understood sources⟩
termination_by structural sources

theorem Source.load_understood (s : Source) (env : Env) : (s.load env).Understood A := by
  cases s with
  | named name aliasName => exact loadNamed_understood name aliasName
  | dual aliasName => exact .pure _
  | stdin aliasName => exact loadStdin_understood aliasName
  | subquery q aliasName columns =>
    exact (q.run_understood env).bind fun v =>
      .lift (sourceOfResult_understood aliasName columns v)
  | values rows aliasName columns =>
    exact loadValues_understood (operandRows_understood rows) aliasName columns
  | join kind left right m =>
    exact (left.load_understood env).bind fun v => (right.load_understood env).bind fun w =>
      joinViews_understood kind m.meaning_understood v w
termination_by structural s

theorem operandRows_understood (rows : List (List Expr)) :
    ∀ row ∈ operandRows rows, ∀ o ∈ row, o.Understood A := by
  cases rows with
  | nil =>
    intro row hm
    cases hm
  | cons row rows =>
    rw [operandRows, List.forall_mem_cons]
    exact ⟨operands_understood row, operandRows_understood rows⟩
termination_by structural rows

theorem JoinMatch.meaning_understood (m : JoinMatch) : m.meaning.Understood A := by
  intro c hc
  cases m with
  | always | natural | «using» names => cases hc
  | on e =>
    cases hc
    exact fun env => e.eval_understood env
termination_by structural m

end

end TableQuery
