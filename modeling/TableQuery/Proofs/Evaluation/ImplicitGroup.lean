import TableQuery.Proofs.Evaluation.Frame
import TableQuery.Proofs.Evaluation.RowCounts
import TableQuery.Proofs.Evaluation.Rows
import TableQuery.Proofs.Evaluation.Stored

/-!
# `HAVING` without `GROUP BY`

A condition that aggregates cannot be evaluated for a row. When it fails for the first row, the whole
view becomes one group and the condition decides about that. A view without rows has no row for
which the condition could fail, so it is never evaluated there: whether the result has a row is then
up to the select list alone.
-/

namespace TableQuery

open Eval

variable {env : Env} {b : Binding} {s t : Scope} {v w : View}

/-! ## Evaluations without a result -/

/-- The evaluation fails in the scope. -/
def Eval.Fails {α : Type} (x : Eval α) (s : Scope) : Prop :=
  ∀ a t, exec x s ≠ (.ok a, t)

namespace Eval.Fails

variable {α β : Type}

theorem throw (e : QueryError) (s : Scope) : Fails (throw e : Eval α) s := by
  intro a t h
  cases h

theorem bind {x : Eval α} (h : Fails x s) (f : α → Eval β) : Fails (x >>= f) s := by
  intro b t hb
  obtain ⟨a, u, ha, -⟩ := exec_bind_eq_ok hb
  exact h a u ha

theorem of_bind {x : Eval α} {f : α → Eval β}
    (h : ∀ a t, exec x s = (.ok a, t) → Fails (f a) t) : Fails (x >>= f) s := by
  intro b t hb
  obtain ⟨a, u, ha, hb⟩ := exec_bind_eq_ok hb
  exact h a u ha b t hb

theorem exec_eq {x : Eval α} (h : Fails x s) : ∃ e, exec x s = (.error e, (exec x s).2) := by
  rcases hx : exec x s with ⟨e | a, t⟩
  · exact ⟨e, rfl⟩
  · exact absurd hx (h a t)

end Eval.Fails

/-! ## Aggregate calls outside groups -/

/-- A call of an aggregate: a built-in one, or one of the application that the scope declares. -/
inductive Expr.CallsAggregate (s : Scope) : Expr → Prop
  | aggregate (name : String) (distinct : Bool) (args : List Expr) :
    CallsAggregate s (.aggregate name distinct args)
  | listAggregate (name : String) (distinct : Bool) (args : List Expr) (order : List OrderItem) :
    CallsAggregate s (.listAggregate name distinct args order)
  | declared {name declaredName : String} {count : Nat}
    {body : List Value → List Value → Except QueryError Value} (args : List Expr)
    (unscalar : ScalarFunction.ofName? name = none)
    (declared : s.function? name = some ⟨declaredName, count, .aggregate body⟩) :
    CallsAggregate s (.call name args)

theorem group_of_ungrouped (hb : b.grouped = false) (name : String) :
    (env.bind b).group name = .error (.notGrouped name) := by
  show (if b.grouped then _ else _) = _
  rw [hb]
  rfl

theorem evalOverGroup_fails (hb : b.grouped = false) (call : Expr) (name : String)
    (distinct : Bool) (argument : Operand) (reduce : List Value → Eval Value) (s : Scope) :
    Fails (evalOverGroup call name distinct argument (env.bind b) reduce) s := by
  unfold evalOverGroup
  rw [group_of_ungrouped hb]
  exact (Fails.throw _ s).bind _

theorem evalAggregate_fails (hb : b.grouped = false) (call : Expr) (name : String)
    (distinct : Bool) (args : List Operand) (s : Scope) :
    Fails (evalAggregate call name distinct args (env.bind b)) s := by
  unfold evalAggregate
  split
  · exact .of_bind fun _ t _ => evalOverGroup_fails hb _ _ _ _ _ t
  · exact .throw _ s
  · refine .of_bind fun f? t _ => ?_
    split
    · exact .throw _ t
    · exact .throw _ t
    · exact .throw _ t
    · exact .of_bind fun _ t _ => evalOverGroup_fails hb _ _ _ _ _ t

theorem evalListAggregate_fails (hb : b.grouped = false) (call : Expr) (name : String)
    (distinct : Bool) (args : List Operand) (order : List SortOperand) (s : Scope) :
    Fails (evalListAggregate call name distinct args order (env.bind b)) s := by
  unfold evalListAggregate
  cases args with
  | nil => exact (Fails.throw _ s).bind _
  | cons argument further =>
    refine .of_bind fun _ t _ => .of_bind fun separator t _ => ?_
    unfold evalJoined
    rw [group_of_ungrouped hb]
    exact (Fails.throw _ t).bind _

/-- An aggregate call has no value for a row, unless a column holds one. -/
theorem Expr.CallsAggregate.fails {e : Expr} (he : e.CallsAggregate s) (hb : b.grouped = false)
    (unknown : (env.bind b).known? e = none) : Fails (e.eval (env.bind b)) s := by
  cases he with
  | aggregate name distinct args =>
    rw [Expr.eval, unknown]
    exact evalAggregate_fails hb _ _ _ _ s
  | listAggregate name distinct args order =>
    rw [Expr.eval, unknown]
    exact evalListAggregate_fails hb _ _ _ _ _ s
  | @declared name declaredName count body args unscalar declared =>
    rw [Expr.eval, unknown]
    dsimp only
    unfold evalCall
    rw [unscalar]
    refine .of_bind fun f? t hf => ?_
    have found : exec (userFunction? name) s = (.ok (s.function? name), s) := rfl
    rw [found, declared] at hf
    cases hf
    exact evalAggregate_fails hb _ _ _ _ s

/-! ## Conditions that compare an aggregate -/

/-- A literal, or one with a sign. -/
def Expr.isConstant : Expr → Bool
  | .literal _ | .signed _ (.literal _) => true
  | _ => false

/-- A comparison of an aggregate call with a literal. -/
inductive Expr.ComparesAggregate (s : Scope) : Expr → Prop
  | left (op : CompareOp) {call constant : Expr} (hcall : call.CallsAggregate s)
    (hconstant : constant.isConstant = true) : ComparesAggregate s (.compare op call constant)
  | right (op : CompareOp) {constant call : Expr} (hconstant : constant.isConstant = true)
    (hcall : call.CallsAggregate s) : ComparesAggregate s (.compare op constant call)

/-- Nothing is known in the rows of a view of sources. -/
theorem known?_of_stored (hb : b.header.Stored) (e : Expr) : (env.bind b).known? e = none := by
  rw [Env.known?_eq, Env.computed?_bind, hb.findComputed?]
  split <;> rfl

theorem exec_constant (env : Env) (s : Scope) {e : Expr} (he : e.isConstant = true) :
    ∃ c, exec (e.eval env) s = (.ok c, s) := by
  cases known : env.known? e with
  | some c =>
    rw [Expr.eval_of_known known]
    exact ⟨c, rfl⟩
  | none =>
    cases e with
    | literal l =>
      rw [Expr.eval, known]
      exact ⟨_, rfl⟩
    | signed sign a =>
      cases a with
      | literal l =>
        rw [Expr.eval, known]
        dsimp only
        rw [Expr.eval, show env.known? (.literal l) = none from rfl]
        exact ⟨_, rfl⟩
      | _ => cases he
    | _ => cases he

/-- Such a comparison has no truth for a row of a view of sources. -/
theorem Expr.ComparesAggregate.fails {e : Expr} (he : e.ComparesAggregate s)
    (hb : b.grouped = false) (stored : b.header.Stored) : Fails (e.eval (env.bind b)) s := by
  cases he with
  | @left op call constant hcall hconstant =>
    rw [Expr.eval, known?_of_stored stored]
    · exact (hcall.fails hb (known?_of_stored stored call)).bind _
    · rintro items rfl
      cases hcall
  | @right op constant call hconstant hcall =>
    obtain ⟨c, hc⟩ := exec_constant (env.bind b) s hconstant
    rw [Expr.eval, known?_of_stored stored]
    · refine .of_bind fun a t ha => ?_
      rw [hc] at ha
      cases ha
      exact (hcall.fails hb (known?_of_stored stored call)).bind _
    · rintro items rfl
      cases hconstant

/-! ## The implicit group -/

/-- All rows of a view as one group. -/
def View.wholeGroup (v : View) : Binding :=
  { header := v.header, record := .group v.header.width v.records, grouped := true }

/-- A condition is not evaluated on a view without rows. -/
theorem View.keepWhere_of_empty {condition : Operand} (h : v.records = []) :
    exec (v.keepWhere condition env) s = (.ok v, s) := by
  obtain ⟨header, records⟩ := v
  cases h
  rfl

/-- A condition that fails for the first row fails for the view. -/
theorem View.keepWhere_fails {condition : Operand} {b : Binding} {bs : List Binding}
    (hb : v.bindings = b :: bs) (h : Fails (condition.eval (env.bind b)) s) :
    ∃ e, exec (v.keepWhere condition env) s
      = (.error e, (exec (condition.eval (env.bind b)) s).2) := by
  obtain ⟨e, he⟩ := h.exec_eq
  refine ⟨e, ?_⟩
  unfold View.keepWhere
  rw [hb, List.mapM_cons, exec_bind, exec_bind, Operand.holdsAt, exec_bind, he]
  rfl

/-- The single group is kept if the condition is TRUE for it. -/
theorem View.keepWhere_groupAll {condition : Operand}
    (h : exec (v.groupAll.keepWhere condition env) s = (.ok w, t)) :
    ∃ value, exec (condition.eval (env.bind v.wholeGroup)) s = (.ok value, t) ∧
      w.grouped = true ∧ w.records.length = if value.toTruth.holds then 1 else 0 := by
  obtain ⟨flags, hflags, -, rfl⟩ := View.keepWhere_eq_ok h
  have single : v.groupAll.bindings = [v.wholeGroup] := rfl
  rw [single, List.mapM_cons] at hflags
  obtain ⟨flag, _, hflag, hflags⟩ := exec_bind_eq_ok hflags
  obtain ⟨value, _, hvalue, hflag⟩ := exec_bind_eq_ok hflag
  cases hflag
  cases hflags
  refine ⟨value, hvalue, rfl, ?_⟩
  show (((_ :: []).zip [value.toTruth.holds]).filter Prod.snd |>.map Prod.fst).length = _
  cases value.toTruth.holds <;> rfl

/-- What a condition that fails for every row keeps: if there are rows it is tested on the group of
all of them, in the scope that its failure left; without rows it is not evaluated. -/
theorem View.having_implicit {condition : Operand}
    (fails : ∀ b ∈ v.bindings, Fails (condition.eval (env.bind b)) s)
    (h : exec (v.having condition env) s = (.ok w, t)) :
    (v.records = [] ∧ w = v ∧ t = s) ∨
      ∃ b bs value, v.bindings = b :: bs ∧
        exec (condition.eval (env.bind v.wholeGroup)) (exec (condition.eval (env.bind b)) s).2
          = (.ok value, t) ∧
        w.grouped = true ∧ w.records.length = if value.toTruth.holds then 1 else 0 := by
  rw [View.having, exec_tryCatch] at h
  cases hb : v.bindings with
  | nil =>
    have empty : v.records = [] := List.map_eq_nil_iff.mp hb
    rw [View.keepWhere_of_empty empty] at h
    cases h
    exact .inl ⟨empty, rfl, rfl⟩
  | cons b bs =>
    obtain ⟨e, he⟩ := View.keepWhere_fails hb (fails b (by rw [hb]; exact .head _))
    rw [he] at h
    dsimp only at h
    split at h
    · obtain ⟨value, hvalue, grouped, length⟩ := View.keepWhere_groupAll h
      exact .inr ⟨b, bs, value, rfl, hvalue, grouped, length⟩
    · cases h

/-! ## Functions of the session -/

/-- Which functions aggregate depends on the functions that the session declares, and on nothing
else of it. -/
theorem Expr.CallsAggregate.of_functions {e : Expr} (he : e.CallsAggregate s)
    (same : t.declaredFunctions = s.declaredFunctions) : e.CallsAggregate t := by
  have found (name : String) : t.function? name = s.function? name := by
    rw [Scope.function?_eq, Scope.function?_eq, same]
  cases he with
  | aggregate => exact .aggregate ..
  | listAggregate => exact .listAggregate ..
  | declared args unscalar declared => exact .declared args unscalar ((found _).trans declared)

theorem Expr.ComparesAggregate.of_functions {e : Expr} (he : e.ComparesAggregate s)
    (same : t.declaredFunctions = s.declaredFunctions) : e.ComparesAggregate t := by
  cases he with
  | left op hcall hconstant => exact .left op (hcall.of_functions same) hconstant
  | right op hconstant hcall => exact .right op hconstant (hcall.of_functions same)

/-- What keeps the functions of every scope keeps those of the scope from which it starts. -/
theorem declaredFunctions_of_same {α : Type} {x : Eval α} {r : Except QueryError α}
    (hx : Eval.Same (fun u => u.declaredFunctions = s.declaredFunctions) x x)
    (h : exec x s = (r, t)) : t.declaredFunctions = s.declaredFunctions := by
  have keeps := hx.keeps rfl
  rwa [h] at keeps

theorem inlineTables_functions {tables : List InlineDef} {recursive : Bool} {after : Env}
    (h : exec (inlineTables tables recursive env) s = (.ok after, t)) :
    t.declaredFunctions = s.declaredFunctions := by
  have same := inlineTables_same (functions_agreement s.declaredFunctions) tables recursive
    (fun _ _ => trivial) (rfl : env = env) (f := fun _ => pure View.dual)
    (g := fun _ => pure View.dual) fun _ _ _ => .pure View.dual
  exact declaredFunctions_of_same same (exec_bind_ok h _)

/-! ## Queries -/

/-- The rows of the sources for which the condition of a `WHERE` clause holds. -/
def sourceRows (sources : List Source) (condition : Option Expr) (env : Env) : Eval View := do
  let v ← loadAll env (loaders sources)
  v.clause (optionOperand condition) fun c => v.keepWhere c env

theorem sourceRows_functions {sources : List Source} {condition : Option Expr}
    (h : exec (sourceRows sources condition env) s = (.ok v, t)) :
    t.declaredFunctions = s.declaredFunctions := by
  have agreement := functions_agreement s.declaredFunctions
  have loaded := loadAll_same (loaders_agree agreement sources fun _ _ => trivial)
    (rfl : env = env)
  refine declaredFunctions_of_same (loaded.bind fun x => x.clause_same _ fun c hc => ?_) h
  exact x.keepWhere_same agreement
    (optionOperand_agrees agreement condition (fun _ _ => trivial) c hc) rfl

theorem sourceRows_stored {sources : List Source} {condition : Option Expr}
    (h : exec (sourceRows sources condition env) s = (.ok v, t)) : v.Stored := by
  obtain ⟨x, r, hx, h⟩ := exec_bind_eq_ok h
  have stored := loadAll_stored sources hx
  exact View.clause_keeps stored (fun c s t w h => stored.keepWhere h) h

/-- How many rows an aggregating condition leaves of the rows of a view. If there are any, the
condition is tested on the group of all of them, in the scope that its failure for the first one
left. Otherwise it is not evaluated and there are `unchecked` many. -/
def View.ImplicitCount (x : View) (condition : Expr) (env : Env) (s : Scope)
    (unchecked count : Nat) : Prop :=
  match x.bindings with
  | [] => count = unchecked
  | b :: _ => ∃ value t,
    exec (condition.eval (env.bind x.wholeGroup)) (exec (condition.eval (env.bind b)) s).2
      = (.ok value, t) ∧
    count = if value.toTruth.holds then 1 else 0

/-- The select list after `HAVING` gives as many rows as the condition leaves. -/
theorem select_implicitCount {x z u : View} {r : Scope} {condition : Expr}
    {items : List SelectItem} (ungrouped : x.grouped = false)
    (fails : ∀ b ∈ x.bindings, Fails (condition.eval (env.bind b)) s)
    (evaluated : aggregates items = false → ∀ item ∈ items, item.isEvaluated = true)
    (hz : exec (x.having ⟨condition, fun env => condition.eval env⟩ env) s = (.ok z, r))
    (hu : Stage.exec (select items env) z r = ((.ok (), u), t)) :
    u.records.length ≤ 1 ∧
      x.ImplicitCount condition env s (if aggregates items then 1 else 0) u.records.length := by
  unfold View.ImplicitCount
  obtain ⟨empty, rfl, rfl⟩ | ⟨b, bs, value, hb, hvalue, grouped, length⟩ :=
    View.having_implicit fails hz
  · rw [View.bindings_of_empty empty]
    cases ha : aggregates items with
    | true =>
      have one := select_length_of_aggregates ungrouped ha hu
      exact ⟨Nat.le_of_eq one, one⟩
    | false =>
      have none := select_records_of_empty (evaluated ha) ha empty hu
      rw [none]
      exact ⟨Nat.zero_le 1, rfl⟩
  · rw [hb]
    have count := (select_length_of_grouped grouped hu).trans length
    refine ⟨?_, value, r, hvalue, count⟩
    rw [count]
    split
    · exact Nat.le_refl 1
    · exact Nat.zero_le 1

/-- A query whose `HAVING` compares an aggregate gives one row if the condition is TRUE for the group
of all rows, and none otherwise, provided there are any rows. Without rows the condition counts for
nothing: the query gives one row exactly if its select list aggregates. -/
theorem having_decides_implicit_group {recursive distinct : Bool} {tables : List InlineDef}
    {fields : List Field} {sources : List Source} {condition : Option Expr} {having : Expr}
    {order : List OrderItem} (aggregated : having.ComparesAggregate s)
    (evaluated : aggregates (selectItems fields) = false →
      ∀ item ∈ selectItems fields, item.isEvaluated = true)
    (h : exec ((Query.mk recursive tables
      (.select distinct fields sources condition [] (some having)) order none .all).run env) s
        = (.ok v, t)) :
    ∃ after x s₀ s₁,
      exec (inlineTables tables recursive env) s = (.ok after, s₀) ∧
      exec (sourceRows sources condition after) s₀ = (.ok x, s₁) ∧
      x.ImplicitCount having after s₁ (if aggregates (selectItems fields) then 1 else 0)
        v.records.length := by
  rw [Query.run] at h
  obtain ⟨after, s₀, htables, h⟩ := exec_bind_eq_ok h
  obtain ⟨w, r, hw, h⟩ := exec_bind_eq_ok h
  have finished : v.records.length = w.records.length := View.finish_length h
  rw [Body.run] at hw
  obtain ⟨a, q, ha, hw⟩ := exec_bind_eq_ok hw
  obtain ⟨x, y, z, u, s₁, s₂, s₃, hx, hy, hz, hu, rfl⟩ := View.selectFrom_eq_ok hw
  cases hy
  have rows : exec (sourceRows sources condition after) s₀ = (.ok x, s₁) := by
    rw [sourceRows, exec_bind_ok ha]
    exact hx
  -- neither the inline tables nor the sources change what an aggregate is
  have aggregated := aggregated.of_functions
    ((sourceRows_functions rows).trans (inlineTables_functions htables))
  have stored := sourceRows_stored rows
  have fails : ∀ b ∈ x.bindings, Fails (having.eval (after.bind b)) s₁ := by
    intro b hb
    obtain ⟨record, -, rfl⟩ := List.mem_map.mp hb
    exact aggregated.fails stored.ungrouped stored.header
  obtain ⟨single, count⟩ :=
    select_implicitCount stored.ungrouped fails evaluated hz (Stage.exec_runOn_eq_ok hu)
  have undoubled : (if distinct then u.distinct after.clock else u).records.length
      = u.records.length := by
    split
    · exact View.distinct_length single _
    · rfl
  refine ⟨after, x, s₀, s₁, htables, rows, ?_⟩
  rw [finished, undoubled]
  exact count

/-- `SELECT 1 FROM t HAVING COUNT(*) > 1` over two rows. -/
theorem having_decides_implicit_group_counted :
    let having : Expr :=
      .compare .greater (.aggregate "COUNT" false [.allColumns]) (.literal (.integer 1))
    let fields : List Field := [.mk (.literal (.integer 1)) none]
    let query : Query :=
      .mk false [] (.select false fields [.named "t" none] none [] (some having)) [] none .all
    let table : StoredTable := ⟨["a"], [[.integer 1], [.integer 2]]⟩
    let env : Env := { settings := { catalog := { tables := ⟨[("T", table)]⟩ } } }
    having.ComparesAggregate {} ∧ (∀ item ∈ selectItems fields, item.isEvaluated = true) ∧
      ∃ v t after x s₀ s₁,
        exec (query.run env) {} = (.ok v, t) ∧ v.records.length = 1 ∧
        exec (inlineTables [] false env) {} = (.ok after, s₀) ∧
        exec (sourceRows [.named "t" none] none after) s₀ = (.ok x, s₁) ∧
        x.ImplicitCount having after s₁ (if aggregates (selectItems fields) then 1 else 0)
          v.records.length := by
  intro having fields query table env
  have aggregated : having.ComparesAggregate {} := .left _ (.aggregate ..) rfl
  have evaluated : ∀ item ∈ selectItems fields, item.isEvaluated = true := by
    intro item hi
    rw [List.mem_singleton.mp hi]
    rfl
  have single : (exec (query.run env) {}).1.toOption.map (fun v => v.records.length) = some 1 := by
    decide +kernel
  obtain ⟨v, t, hv, length⟩ := eq_ok_of_toOption_map single
  obtain ⟨after, x, s₀, s₁, htables, hsource, count⟩ :=
    having_decides_implicit_group aggregated (fun _ => evaluated) hv
  exact ⟨aggregated, evaluated, v, t, after, x, s₀, s₁, hv, length, htables, hsource, count⟩

/-- `SELECT COUNT(*) FROM t HAVING COUNT(*) > 5` gives a row if the table is empty, although the
condition is FALSE for the empty group. -/
example :
    let count : Expr := .aggregate "COUNT" false [.allColumns]
    let having : Expr := .compare .greater count (.literal (.integer 5))
    let query : Query := .mk false []
      (.select false [.mk count none] [.named "t" none] none [] (some having)) [] none .all
    let env : Env := { settings := { catalog := { tables := ⟨[("T", ⟨["a"], []⟩)]⟩ } } }
    let group := View.wholeGroup { header := .ofNames "t" ["a"], records := [] }
    (exec (query.run env) {}).1.toOption.map (fun v => v.records.length) = some 1 ∧
      (exec (having.eval (env.bind group)) {}).1.toOption.map Value.toTruth = some .no := by
  decide +kernel

end TableQuery
