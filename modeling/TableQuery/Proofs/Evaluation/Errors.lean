import TableQuery.Evaluation.Meaning
import TableQuery.Proofs.Evaluation.Frame

/-!
# Errors of evaluations

A syntax error says that a text is no statement. An evaluation starts from a statement and has no
such errors of its own, but it passes on the errors with which functions of the application answer.
The rules below say so for the ways in which evaluations are put together, and then for operators
and calls.
-/

namespace TableQuery

/-- Whether an error says that a text is no statement. -/
def QueryError.isSyntax : QueryError → Bool
  | badSyntax _ _ => true
  | _ => false

/-- The error is no syntax error, or it is one of the errors in `A`. -/
def QueryError.Understood (A : QueryError → Prop) (e : QueryError) : Prop :=
  e.isSyntax = true → A e

variable {A : QueryError → Prop}

/-! ## Plain results -/

section

variable {α β : Type}

/-- The result is no syntax error but one in `A`. -/
def Understood (A : QueryError → Prop) (x : Except QueryError α) : Prop :=
  ∀ e, x = .error e → e.Understood A

namespace Understood

theorem ok (a : α) : Understood A (.ok a) :=
  fun _ h => by cases h

theorem failed {e : QueryError} (h : e.Understood A) : Understood A (.error e : Except _ α) :=
  fun _ he => by cases he; exact h

theorem error {e : QueryError} (h : e.isSyntax = false) : Understood A (.error e : Except _ α) :=
  .failed fun syntactic => by rw [h] at syntactic; cases syntactic

theorem bind {x : Except QueryError α} {f : α → Except QueryError β} (hx : Understood A x)
    (hf : ∀ a, Understood A (f a)) : Understood A (x >>= f) := by
  cases x with
  | error e => exact .failed (hx e rfl)
  | ok a => exact hf a

theorem map {x : Except QueryError α} (f : α → β) (hx : Understood A x) :
    Understood A (x.map f) := by
  cases x with
  | error e => exact .failed (hx e rfl)
  | ok a => exact .ok _

theorem mapM {f : α → Except QueryError β} {as : List α} (h : ∀ a, Understood A (f a)) :
    Understood A (as.mapM f) := by
  induction as with
  | nil => exact .ok _
  | cons a as ih =>
    rw [List.mapM_cons]
    exact (h a).bind fun b => ih.bind fun bs => .ok _

end Understood

end

/-- The answers of a function of the application are no syntax errors but those in `A`. -/
def UserFunction.Understood (A : QueryError → Prop) (f : UserFunction) : Prop :=
  match f.body with
  | .scalar g => ∀ vs, TableQuery.Understood A (g vs)
  | .aggregate g => ∀ vs extra, TableQuery.Understood A (g vs extra)

/-- No function that the scope declares answers with a syntax error but those in `A`. -/
def Scope.Understood (A : QueryError → Prop) (s : Scope) : Prop :=
  ∀ name f, s.function? name = some f → f.Understood A

/-- The function answers some arguments with the error. -/
def UserFunction.AnswersWith (f : UserFunction) (e : QueryError) : Prop :=
  match f.body with
  | .scalar g => ∃ vs, g vs = .error e
  | .aggregate g => ∃ vs extra, g vs extra = .error e

/-- A function that the scope declares answers some arguments with the error. -/
def Scope.AnswersWith (s : Scope) (e : QueryError) : Prop :=
  ∃ name f, s.function? name = some f ∧ f.AnswersWith e

/-- The functions of a scope give no syntax errors but those with which they answer. -/
theorem Scope.understood_answersWith (s : Scope) : s.Understood s.AnswersWith := by
  intro name f declared
  have answers (e : QueryError) (h : f.AnswersWith e) : s.AnswersWith e := ⟨name, f, declared, h⟩
  obtain ⟨upperName, argumentCount, body⟩ := f
  cases body with
  | scalar g => exact fun vs e failed _ => answers e ⟨vs, failed⟩
  | aggregate g => exact fun vs extra e failed _ => answers e ⟨vs, extra, failed⟩

/-! ## Evaluations -/

namespace Eval

variable {α β : Type} {Q : α → Prop} {Q' : β → Prop}

/-- The computation gives no syntax error but those in `A` as long as the functions of the scope
give no others, and it leaves such a scope. What it gives satisfies `Q`. -/
def Yields (A : QueryError → Prop) (Q : α → Prop) (x : Eval α) : Prop :=
  ∀ s : Scope, s.Understood A → (∀ a, (exec x s).1 = .ok a → Q a) ∧
    TableQuery.Understood A (exec x s).1 ∧ (exec x s).2.Understood A

/-- The computation gives no syntax error but those in `A` as long as the functions of the scope
give no others, and it leaves such a scope. -/
def Understood (A : QueryError → Prop) (x : Eval α) : Prop :=
  x.Yields A fun _ => True

theorem Yields.pure {a : α} (h : Q a) : Yields A Q (pure a) :=
  fun _ hs => ⟨fun _ ha => Except.ok.inj ha ▸ h, .ok _, hs⟩

theorem Yields.throw {e : QueryError} (h : e.isSyntax = false) : Yields A Q (throw e : Eval α) :=
  fun _ hs => ⟨fun _ ha => (by cases ha), .error h, hs⟩

theorem Yields.bind {x : Eval α} {f : α → Eval β} (hx : x.Yields A Q)
    (hf : ∀ a, Q a → (f a).Yields A Q') : (x >>= f).Yields A Q' := by
  intro s hs
  obtain ⟨holds, understood, ht⟩ := hx s hs
  rw [exec_bind]
  rcases hr : exec x s with ⟨e | a, t⟩ <;> rw [hr] at holds understood ht
  · exact ⟨fun _ h => (by cases h), .failed (understood e rfl), ht⟩
  · exact hf a (holds a rfl) t ht

/-- What follows may use what is known of the result. -/
theorem Yields.andThen {x : Eval α} {f : α → Eval β} (hx : x.Yields A Q)
    (hf : ∀ a, Q a → (f a).Understood A) : (x >>= f).Understood A :=
  hx.bind hf

theorem Understood.bind_yields {x : Eval α} {f : α → Eval β} (hx : x.Understood A)
    (hf : ∀ a, (f a).Yields A Q') : (x >>= f).Yields A Q' :=
  Yields.bind hx fun a _ => hf a

theorem Understood.bind {x : Eval α} {f : α → Eval β} (hx : x.Understood A)
    (hf : ∀ a, (f a).Understood A) : (x >>= f).Understood A :=
  hx.bind_yields hf

theorem Understood.pure (a : α) : Understood A (pure a) :=
  Yields.pure trivial

theorem Understood.rethrow {e : QueryError} (h : e.Understood A) :
    Understood A (throw e : Eval α) :=
  fun _ hs => ⟨fun _ _ => trivial, .failed h, hs⟩

theorem Understood.throw {e : QueryError} (h : e.isSyntax = false) :
    Understood A (throw e : Eval α) :=
  Yields.throw h

theorem Understood.lift {x : Except QueryError α} (h : TableQuery.Understood A x) :
    Understood A (liftM x : Eval α) :=
  fun _ hs => ⟨fun _ _ => trivial, h, hs⟩

theorem Understood.get : Understood A (get : Eval Scope) :=
  fun _ hs => ⟨fun _ _ => trivial, .ok _, hs⟩

theorem Understood.map {x : Eval α} (f : α → β) (h : x.Understood A) : (f <$> x).Understood A := by
  rw [map_eq_pure_bind]
  exact h.bind fun a => .pure (f a)

theorem Understood.tryCatch {x : Eval α} {f : QueryError → Eval α} (h : x.Understood A)
    (hf : ∀ e, e.Understood A → (f e).Understood A) : (tryCatch x f : Eval α).Understood A := by
  intro s hs
  obtain ⟨-, understood, ht⟩ := h s hs
  rw [exec_tryCatch]
  rcases hr : exec x s with ⟨e | a, t⟩ <;> rw [hr] at understood ht
  · exact hf e (understood e rfl) t ht
  · exact ⟨fun _ _ => trivial, .ok a, ht⟩

theorem Understood.mapM {f : α → Eval β} {as : List α} (h : ∀ a ∈ as, (f a).Understood A) :
    (as.mapM f).Understood A := by
  induction as with
  | nil => exact .pure []
  | cons a as ih =>
    rw [List.mapM_cons]
    refine (h a (by simp)).bind fun b => ?_
    exact (ih fun c hc => h c (by simp [hc])).bind fun bs => .pure (b :: bs)

theorem Understood.foldlM {f : β → α → Eval β} {as : List α}
    (h : ∀ a ∈ as, ∀ b, (f b a).Understood A) (b : β) : (as.foldlM f b).Understood A := by
  induction as generalizing b with
  | nil => exact .pure b
  | cons a as ih =>
    rw [List.foldlM_cons]
    exact (h a (by simp) b).bind fun c => ih (fun d hd => h d (by simp [hd])) c

end Eval

/-! ## Stages -/

namespace Stage

variable {α β : Type}

/-- The stage gives no syntax error but those in `A` as long as the functions of the scope give no
others, and it leaves such a scope. -/
def Understood (A : QueryError → Prop) (x : Stage α) : Prop :=
  ∀ (v : View) (s : Scope), s.Understood A →
    TableQuery.Understood A (exec x v s).1.1 ∧ (exec x v s).2.Understood A

namespace Understood

theorem pure (a : α) : Understood A (pure a) :=
  fun _ _ hs => ⟨.ok _, hs⟩

theorem rethrow {e : QueryError} (h : e.Understood A) : Understood A (throw e : Stage α) :=
  fun _ _ hs => ⟨.failed h, hs⟩

theorem throw {e : QueryError} (h : e.isSyntax = false) : Understood A (throw e : Stage α) :=
  fun _ _ hs => ⟨.error h, hs⟩

theorem lift {x : Except QueryError α} (h : TableQuery.Understood A x) :
    Understood A (liftM x : Stage α) :=
  fun _ _ hs => ⟨h, hs⟩

theorem view : Understood A Stage.view :=
  fun _ _ hs => ⟨.ok _, hs⟩

theorem modifyView (f : View → View) : Understood A (Stage.modifyView f) :=
  fun _ _ hs => ⟨.ok _, hs⟩

theorem liftEval_bind {Q : α → Prop} {x : Eval α} {f : α → Stage β} (hx : x.Yields A Q)
    (hf : ∀ a, Q a → Understood A (f a)) : Understood A ((liftM x : Stage α) >>= f) := by
  intro v s hs
  obtain ⟨holds, understood, ht⟩ := hx s hs
  rw [exec_bind, exec_liftEval]
  rcases hr : Eval.exec x s with ⟨e | a, t⟩ <;> rw [hr] at holds understood ht
  · exact ⟨.failed (understood e rfl), ht⟩
  · exact hf a (holds a rfl) v t ht

theorem bind {x : Stage α} {f : α → Stage β} (hx : Understood A x) (hf : ∀ a, Understood A (f a)) :
    Understood A (x >>= f) := by
  intro v s hs
  obtain ⟨understood, ht⟩ := hx v s hs
  rw [exec_bind]
  rcases hr : exec x v s with ⟨⟨e | a, w⟩, t⟩ <;> rw [hr] at understood ht
  · exact ⟨.failed (understood e rfl), ht⟩
  · exact hf a w t ht

theorem tryCatch {x : Stage α} {f : QueryError → Stage α} (h : Understood A x)
    (hf : ∀ e, e.Understood A → Understood A (f e)) : Understood A (tryCatch x f : Stage α) := by
  intro v s hs
  obtain ⟨understood, ht⟩ := h v s hs
  rw [exec_tryCatch]
  rcases hr : exec x v s with ⟨⟨e | a, w⟩, t⟩ <;> rw [hr] at understood ht
  · exact hf e (understood e rfl) w t ht
  · exact ⟨.ok a, ht⟩

theorem mapM {f : α → Stage β} {as : List α} (h : ∀ a ∈ as, Understood A (f a)) :
    Understood A (as.mapM f) := by
  induction as with
  | nil => exact pure []
  | cons a as ih =>
    rw [List.mapM_cons]
    refine (h a (by simp)).bind fun b => ?_
    exact (ih fun c hc => h c (by simp [hc])).bind fun bs => pure (b :: bs)

theorem forM {f : α → Stage PUnit} {as : List α} (h : ∀ a ∈ as, Understood A (f a)) :
    Understood A (as.forM f) := by
  induction as with
  | nil => exact pure PUnit.unit
  | cons a as ih => exact (h a (by simp)).bind fun _ => ih fun c hc => h c (by simp [hc])

theorem runOn {x : Stage Unit} (h : Understood A x) (v : View) : (x.runOn v).Understood A := by
  intro s hs
  obtain ⟨understood, ht⟩ := h v s hs
  rw [exec_runOn]
  rcases hr : exec x v s with ⟨⟨e | a, w⟩, t⟩ <;> rw [hr] at understood ht
  · exact ⟨fun _ _ => trivial, .failed (understood e rfl), ht⟩
  · exact ⟨fun _ _ => trivial, .ok w, ht⟩

end Understood

end Stage

/-! ## Lookups -/

theorem checkArity_understood (function : String) (arity : Arity) (n : Nat) :
    Understood A (checkArity function arity n) := by
  unfold checkArity
  split
  · exact .ok _
  · exact .error rfl

namespace Header

variable (h : Header) (table : Option String) (name : String)

theorem find?_understood : Understood A (h.find? table name) := by
  unfold find?
  split
  · exact .ok _
  · exact .ok _
  · exact .error rfl

theorem find_understood : Understood A (h.find table name) := by
  refine (h.find?_understood table name).bind fun i? => ?_
  split
  · exact .ok _
  · exact .error rfl

theorem columnsOf_understood (table : String) : Understood A (h.columnsOf table) := by
  unfold columnsOf
  split
  · exact .error rfl
  · exact .ok _

theorem addGroupKeys_understood (items : List Expr) : Understood A (h.addGroupKeys items) := by
  induction items generalizing h with
  | nil => exact .ok _
  | cons item items ih =>
    refine Understood.bind ?_ fun keyed => (ih keyed.1).bind fun others => .ok _
    unfold addGroupKey
    split
    · refine (h.find?_understood _ _).bind fun i? => ?_
      split <;> exact .ok _
    · split <;> exact .ok _

end Header

namespace Env

theorem columnIn_understood (table : Option String) (name : String) (bindings : List Binding) :
    Understood A (columnIn table name bindings) := by
  induction bindings with
  | nil => exact .error rfl
  | cons b bs ih =>
    unfold columnIn
    cases found : b.header.find? table name with
    | error e => exact .failed (b.header.find?_understood table name e found)
    | ok i? =>
      cases i? with
      | none => exact ih
      | some i =>
        dsimp only
        split
        · exact .error rfl
        · exact .ok _

theorem group_understood (env : Env) (function : String) : Understood A (env.group function) := by
  unfold group
  split
  · exact .error rfl
  · split
    · exact .ok _
    · exact .error rfl

end Env

namespace Scope

variable {s t : Scope} {name : String} {v : Value}

theorem variableValue_understood (s : Scope) (name : String) :
    TableQuery.Understood A (s.variableValue name) := by
  unfold variableValue
  split
  · exact .ok _
  · exact .error rfl

theorem setVariable_understood (s : Scope) (name : String) (v : Value) :
    TableQuery.Understood A (s.setVariable name v) := by
  unfold setVariable update
  split
  · exact .ok _
  · exact .error rfl

/-- An assignment leaves the functions of the scope as they are. -/
theorem Understood.setVariable (hs : s.Understood A) (h : s.setVariable name v = .ok t) :
    t.Understood A := by
  intro function f found
  rw [function?_eq, declaredFunctions_setVariable h, ← function?_eq] at found
  exact hs function f found

end Scope

/-! ## Operators -/

/-- An expression whose evaluation gives no syntax error but those in `A`. -/
def Operand.Understood (A : QueryError → Prop) (o : Operand) : Prop :=
  ∀ env, (o.eval env).Understood A

/-- An operand that gives no syntax error but those in `A`, as a value or as a row. -/
structure RowOperand.Understood (A : QueryError → Prop) (p : RowOperand) : Prop where
  value : p.value.Understood A
  row : p.row.Understood A

theorem evalAll_understood {os : List Operand} (ho : ∀ o ∈ os, o.Understood A) (env : Env) :
    (evalAll os env).Understood A :=
  .mapM fun o hm => ho o hm env

theorem Operand.Understood.evalEach {o : Operand} (ho : o.Understood A) (env : Env)
    (bindings : List Binding) : (o.evalEach env bindings).Understood A :=
  .mapM fun _ _ => ho _

section

variable {l r x : Eval Value} {p q low high : RowOperand}

theorem evalArith_understood (op : ArithOp) (hl : l.Understood A) (hr : r.Understood A) :
    (evalArith op l r).Understood A := by
  refine hl.bind fun v => ?_
  split
  · exact .pure _
  · exact hr.bind fun w => .pure _

theorem evalConcat_understood {os : List Operand} (ho : ∀ o ∈ os, o.Understood A) (env : Env)
    (before : String) : (evalConcat env before os).Understood A := by
  induction os generalizing before with
  | nil => exact .pure _
  | cons o os ih =>
    refine (ho o (by simp) env).bind fun v => ?_
    split
    · exact ih (fun p hp => ho p (by simp [hp])) _
    · exact .pure _

theorem evalLogic_understood (op : LogicOp) (hl : l.Understood A) (hr : r.Understood A) :
    (evalLogic op l r).Understood A := by
  refine hl.bind fun v => ?_
  split
  · exact .pure _
  · exact .pure _
  · exact hr.bind fun w => .pure _
  · exact hr.bind fun w => .pure _

theorem evalBranches_understood (test : Value → Truth) (hx : x.Understood A)
    {branches : List (Eval Value × Eval Value)}
    (hb : ∀ b ∈ branches, b.1.Understood A ∧ b.2.Understood A) :
    (evalBranches test x branches).Understood A := by
  induction branches with
  | nil => exact hx
  | cons b branches ih =>
    obtain ⟨condition, result⟩ := hb b (by simp)
    refine condition.bind fun v => ?_
    split
    · exact result
    · exact ih fun c hc => hb c (by simp [hc])

theorem evalCase_understood (clock : Calendar.Clock) {operand otherwise : Option (Eval Value)}
    {branches : List (Eval Value × Eval Value)} (ho : ∀ x ∈ operand, x.Understood A)
    (hb : ∀ b ∈ branches, b.1.Understood A ∧ b.2.Understood A)
    (he : ∀ x ∈ otherwise, x.Understood A) :
    (evalCase clock operand branches otherwise).Understood A := by
  have last : (otherwise.getD (return .null)).Understood A := by
    cases otherwise with
    | some x => exact he x rfl
    | none => exact .pure _
  cases operand with
  | some o => exact (ho o rfl).bind fun v => evalBranches_understood _ last hb
  | none => exact evalBranches_understood _ last hb

theorem evalRowTest_understood (clock : Calendar.Clock) (op : CompareOp) (left : List Value)
    (hp : p.Understood A) : (evalRowTest clock op left p).Understood A := by
  refine hp.row.bind fun row? => ?_
  split
  · exact .pure _
  · split
    · exact .throw rfl
    · exact .pure _

theorem evalRowCompare_understood (clock : Calendar.Clock) (op : CompareOp) (hp : p.Understood A)
    (hq : q.Understood A) : (evalRowCompare clock op p q).Understood A := by
  refine hp.row.bind fun row? => ?_
  split
  · exact .pure _
  · exact evalRowTest_understood clock op _ hq

theorem evalBetween_understood (clock : Calendar.Clock) (negated : Bool) (hp : p.Understood A)
    (hl : low.Understood A) (hh : high.Understood A) :
    (evalBetween clock negated p low high).Understood A := by
  refine hp.row.bind fun row? => ?_
  split
  · exact .pure _
  · exact .pure _
  · -- a row of a single value is tested as the value
    refine Eval.Understood.bind ?_ fun above => ?_
    · split
      · exact hl.value.bind fun v => .pure _
      · exact evalRowTest_understood clock _ _ hl
    · split
      · exact .pure _
      · refine Eval.Understood.bind ?_ fun below => .pure _
        split
        · exact hh.value.bind fun v => .pure _
        · exact evalRowTest_understood clock _ _ hh

theorem evalQuantified_understood (clock : Calendar.Clock) (op : CompareOp)
    (combine : List Truth → Truth) {row : Eval (Option (List Value))}
    {rows : Nat → Eval (List (List Value))} (hr : row.Understood A)
    (hs : ∀ width, (rows width).Understood A) :
    (evalQuantified clock op combine row rows).Understood A := by
  refine hr.bind fun row? => ?_
  split
  · exact .pure _
  · exact (hs _).bind fun _ => .pure _

theorem rowOperand_understood (text : String) (hx : x.Understood A)
    {row? : Option (Eval (Option (List Value)))} (hr : ∀ row ∈ row?, row.Understood A) :
    (rowOperand text x row?).Understood A := by
  refine ⟨hx, ?_⟩
  cases row? with
  | some row => exact hr row rfl
  | none => exact hx.bind fun v => .pure _

theorem evalListItem_understood (width : Nat) (hp : p.Understood A) (isRow : Bool) :
    (evalListItem width p isRow).Understood A := by
  have last (row : List Value) : Eval.Understood A (do
      if row.length != width then throw (.rowWidth p.text width)
      return row) := by
    dsimp only
    split
    · exact (Eval.Understood.throw rfl).bind fun _ => .pure _
    · exact .pure _
  unfold evalListItem
  dsimp only
  split
  · exact hp.row.bind fun row? => (Eval.Understood.pure _).bind last
  · exact hp.value.bind fun v => (Eval.Understood.pure _).bind last

end

theorem assignVariable_understood (name : String) (v : Value) :
    (assignVariable name v).Understood A := by
  intro s hs
  refine ⟨fun _ _ => trivial, ?_⟩
  rw [assignVariable, Eval.exec_bind_ok (Eval.exec_get s), Eval.exec_bind, Eval.exec_lift]
  cases ht : s.setVariable name v with
  | error e => exact ⟨.failed (s.setVariable_understood name v e ht), hs⟩
  | ok t => exact ⟨.ok v, hs.setVariable ht⟩

/-! ## Results of subqueries -/

theorem valueOfResult_understood (q : Query) (result : View) :
    Understood A (valueOfResult q result) := by
  unfold valueOfResult
  split
  · exact .error rfl
  · split
    · exact .ok _
    · exact .ok _
    · exact .error rfl

theorem rowOfResult_understood (q : Query) (result : View) :
    Understood A (rowOfResult q result) := by
  unfold rowOfResult
  split
  · exact .ok _
  · exact .ok _
  · exact .error rfl

theorem rowsOfResult_understood (q : Query) (width : Nat) (result : View) :
    Understood A (rowsOfResult q width result) := by
  unfold rowsOfResult
  split
  · exact .ok _
  · split <;> exact .error rfl

/-! ## Calls -/

theorem userFunction?_yields (name : String) :
    (userFunction? name).Yields A fun f? => ∀ f ∈ f?, f.Understood A := by
  intro s hs
  refine ⟨fun f? found f hf => ?_, .ok _, hs⟩
  cases found
  exact hs name f hf

theorem evalMembers_understood {o : Operand} (ho : o.Understood A) (env : Env) (header : Header)
    (rows : List Record) : (evalMembers o env header rows).Understood A :=
  .mapM fun _ _ => ho _

theorem countsMembers_understood (call : Expr) (name : String) (argument : Expr) :
    Understood A (countsMembers call name argument) := by
  unfold countsMembers
  dsimp only
  split
  · split
    · exact .ok _
    · exact .error rfl
  · exact .error rfl
  · exact .ok _
  · exact .ok _
  · exact .ok _

theorem evalOverGroup_understood (call : Expr) (name : String) (distinct : Bool) {o : Operand}
    (ho : o.Understood A) (env : Env) {reduce : List Value → Eval Value}
    (hr : ∀ vs, (reduce vs).Understood A) :
    (evalOverGroup call name distinct o env reduce).Understood A := by
  refine (Eval.Understood.lift (env.group_understood name)).bind fun group => ?_
  refine (Eval.Understood.lift (countsMembers_understood call name o.expr)).bind fun counts => ?_
  split
  · exact .pure _
  · split
    · exact .throw rfl
    · exact (evalMembers_understood ho env _ _).bind fun vs => hr _

theorem evalAggregate_understood (call : Expr) (name : String) (distinct : Bool)
    {args : List Operand} (ha : ∀ o ∈ args, o.Understood A) (env : Env) :
    (evalAggregate call name distinct args env).Understood A := by
  unfold evalAggregate
  split
  · refine (Eval.Understood.lift (checkArity_understood _ _ _)).bind fun _ => ?_
    exact evalOverGroup_understood call name distinct (ha _ (by simp)) env fun vs => .pure _
  · exact .throw rfl
  · refine (userFunction?_yields name).andThen fun f? hf => ?_
    split
    · exact .throw rfl
    · exact .throw rfl
    · exact .throw rfl
    · refine (Eval.Understood.lift (checkArity_understood _ _ _)).bind fun _ => ?_
      refine evalOverGroup_understood call name distinct (ha _ (by simp)) env fun vs => ?_
      refine (evalAll_understood (fun o ho => ha o (by simp [ho])) env).bind fun extra => ?_
      exact .lift (hf _ rfl vs extra)

theorem evalCall_understood (call : Expr) (name : String) {args : List Operand}
    (ha : ∀ o ∈ args, o.Understood A) (env : Env) : (evalCall call name args env).Understood A := by
  unfold evalCall
  split
  · refine (evalAll_understood ha env).bind fun vs => .lift ?_
    exact (checkArity_understood _ _ _).bind fun _ => .ok _
  · refine (userFunction?_yields name).andThen fun f? hf => ?_
    split
    · exact .throw rfl
    · exact evalAggregate_understood call name false ha env
    · refine (Eval.Understood.lift (checkArity_understood _ _ _)).bind fun _ => ?_
      exact (evalAll_understood ha env).bind fun vs => .lift (hf _ rfl vs)

theorem evalSortKeys_understood {order : List SortOperand}
    (ho : ∀ o ∈ order, o.toOperand.Understood A) (env : Env) :
    (evalSortKeys order env).Understood A :=
  (Eval.Understood.mapM fun o hm => ho o hm env).bind fun _ => .pure _

theorem sortMembers_understood {order : List SortOperand}
    (ho : ∀ o ∈ order, o.toOperand.Understood A) (env : Env) (header : Header)
    (rows : List Record) :
    (sortMembers order env header rows).Understood A := by
  unfold sortMembers
  split
  · exact .pure _
  · refine (Eval.Understood.mapM fun row _ => ?_).bind fun keys => .pure _
    exact evalSortKeys_understood ho _

theorem evalSeparator_understood (name : String) {further : List Operand}
    (hf : ∀ o ∈ further, o.Understood A) (env : Env) :
    (evalSeparator name further env).Understood A := by
  unfold evalSeparator
  split
  · exact .pure _
  · refine (hf _ (by simp) env).bind fun v => ?_
    split
    · exact .pure _
    · exact .throw rfl

theorem evalJoined_understood (call : Expr) (name : String) (distinct : Bool) {argument : Operand}
    (ha : argument.Understood A) {order : List SortOperand}
    (ho : ∀ o ∈ order, o.toOperand.Understood A) (env : Env) (separator : String) :
    (evalJoined call name distinct argument order env separator).Understood A := by
  refine (Eval.Understood.lift (env.group_understood name)).bind fun group => ?_
  split
  · exact .throw rfl
  · refine (sortMembers_understood ho env _ _).bind fun rows => ?_
    exact (evalMembers_understood ha env _ _).bind fun vs => .pure _

theorem evalListAggregate_understood (call : Expr) (name : String) (distinct : Bool)
    {args : List Operand} (ha : ∀ o ∈ args, o.Understood A) {order : List SortOperand}
    (ho : ∀ o ∈ order, o.toOperand.Understood A) (env : Env) :
    (evalListAggregate call name distinct args order env).Understood A := by
  refine (Eval.Understood.lift (checkArity_understood _ _ _)).bind fun _ => ?_
  split
  · exact .pure _
  · refine (evalSeparator_understood name (fun o hm => ha o (by simp [hm])) env).bind ?_
    exact fun separator => evalJoined_understood call name distinct (ha _ (by simp)) ho env _

end TableQuery
