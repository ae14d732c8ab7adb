import Mathlib.Data.List.Forall2
import TableQuery.Evaluation.Meaning
import TableQuery.Proofs.Evaluation.Agreement
import TableQuery.Proofs.Syntax.Parts

/-!
# Agreement of operators and calls

Operators and calls agree if their operands do. Environments are compared by a relation under which
all that an evaluation asks of them is answered alike.
-/

namespace TableQuery

/-- A relation of environments that an evaluation cannot tell apart while it comes across parts in
`P` only and starts from a scope in `I`. -/
structure Env.Agreement (I : Scope → Prop) (P : Part → Prop) (R : Env → Env → Prop) : Prop where
  settings {a b : Env} : R a b → a.settings = b.settings
  inlineTable {a b : Env} : R a b → ∀ name, a.inlineTable? name = b.inlineTable? name
  bind {a b : Env} : R a b → ∀ x, R (a.bind x) (b.bind x)
  rebind {a b : Env} : R a b → ∀ header record, R (a.rebind header record) (b.rebind header record)
  detached {a b : Env} : R a b → R a.detached b.detached
  withInlineTable {a b : Env} : R a b → ∀ t, R (a.withInlineTable t) (b.withInlineTable t)
  withRecursive {a b : Env} : R a b → ∀ t, R (a.withRecursive t) (b.withRecursive t)
  column {a b : Env} {table : Option String} {name : String} : R a b →
    P (.expr (.column table name)) → a.column table name = b.column table name
  /-- Joins by names look up qualified names that are not written in the query. -/
  reference {a b : Env} : R a b → P .rejoin →
    ∀ table name, a.column (some table) name = b.column (some table) name
  known {a b : Env} {e : Expr} : R a b → P (.expr e) → a.known? e = b.known? e
  group {a b : Env} : R a b → ∀ function, a.group function = b.group function
  /-- An assignment that is written in the query stays in `I`. -/
  assign {name : String} {e : Expr} : P (.expr (.assign name e)) →
    ∀ v s t, I s → s.setVariable name v = .ok t → I t

variable {I : Scope → Prop} {P : Part → Prop} {R : Env → Env → Prop} {α : Type}

/-- The operand has the same meaning in related environments. -/
def Operand.Agrees (I : Scope → Prop) (R : Env → Env → Prop) (o : Operand) : Prop :=
  ∀ a b, R a b → Eval.Same I (o.eval a) (o.eval b)

/-- Row operands that agree as values and as rows. -/
structure RowOperand.Same (I : Scope → Prop) (x y : RowOperand) : Prop where
  text : x.text = y.text
  value : Eval.Same I x.value y.value
  row : Eval.Same I x.row y.row

namespace Env.Agreement

theorem clock (A : Env.Agreement I P R) {a b : Env} (h : R a b) : a.clock = b.clock :=
  congrArg Settings.clock (A.settings h)

end Env.Agreement

/-! ## Operands -/

theorem evalAll_same {os : List Operand} (ho : ∀ o ∈ os, o.Agrees I R) {a b : Env} (h : R a b) :
    Eval.Same I (evalAll os a) (evalAll os b) :=
  .mapM fun o hm => ho o hm a b h

theorem Operand.evalEach_same (A : Env.Agreement I P R) {o : Operand} (ho : o.Agrees I R)
    {a b : Env} (h : R a b) (bindings : List Binding) :
    Eval.Same I (o.evalEach a bindings) (o.evalEach b bindings) :=
  .mapM fun x _ => ho _ _ (A.bind h x)

/-! ## Operators -/

variable {l r x y : Eval Value} {l' r' x' y' : Eval Value}

theorem evalArith_same (op : ArithOp) (hl : Eval.Same I l l') (hr : Eval.Same I r r') :
    Eval.Same I (evalArith op l r) (evalArith op l' r') := by
  refine hl.bind fun v => ?_
  split
  · exact .pure _
  · exact hr.bind fun w => .pure _

theorem evalConcat_same {os : List Operand} (ho : ∀ o ∈ os, o.Agrees I R) {a b : Env} (h : R a b)
    (before : String) : Eval.Same I (evalConcat a before os) (evalConcat b before os) := by
  induction os generalizing before with
  | nil => exact .pure _
  | cons o os ih =>
    refine (ho o (by simp) a b h).bind fun v => ?_
    split
    · exact ih (fun p hp => ho p (by simp [hp])) _
    · exact .pure _

theorem evalLogic_same (op : LogicOp) (hl : Eval.Same I l l') (hr : Eval.Same I r r') :
    Eval.Same I (evalLogic op l r) (evalLogic op l' r') := by
  refine hl.bind fun v => ?_
  split
  · exact .pure _
  · exact .pure _
  · exact hr.bind fun w => .pure _
  · exact hr.bind fun w => .pure _

/-- Branches that agree one by one. -/
def BranchesSame (I : Scope → Prop) :
    List (Eval Value × Eval Value) → List (Eval Value × Eval Value) → Prop :=
  List.Forall₂ fun p q => Eval.Same I p.1 q.1 ∧ Eval.Same I p.2 q.2

theorem evalBranches_same (test : Value → Truth) (ho : Eval.Same I x x')
    {ps qs : List (Eval Value × Eval Value)} (h : BranchesSame I ps qs) :
    Eval.Same I (evalBranches test x ps) (evalBranches test x' qs) := by
  induction h with
  | nil => exact ho
  | cons hpq _ ih =>
    refine hpq.1.bind fun v => ?_
    split
    · exact hpq.2
    · exact ih

theorem evalCase_same (clock : Calendar.Clock) {operand operand' : Option (Eval Value)}
    {otherwise otherwise' : Option (Eval Value)} {ps qs : List (Eval Value × Eval Value)}
    (ho : Option.Rel (Eval.Same I) operand operand') (hb : BranchesSame I ps qs)
    (he : Option.Rel (Eval.Same I) otherwise otherwise') :
    Eval.Same I (evalCase clock operand ps otherwise) (evalCase clock operand' qs otherwise') := by
  have hlast : Eval.Same I (otherwise.getD (return .null)) (otherwise'.getD (return .null)) := by
    cases he with
    | some h => exact h
    | none => exact .pure _
  cases ho with
  | some h => exact h.bind fun v => evalBranches_same _ hlast hb
  | none => exact evalBranches_same _ hlast hb

theorem evalRowTest_same (clock : Calendar.Clock) (op : CompareOp) (left : List Value)
    {p q : RowOperand} (h : p.Same I q) :
    Eval.Same I (evalRowTest clock op left p) (evalRowTest clock op left q) := by
  refine h.row.bind fun row? => ?_
  rw [h.text]
  split
  · exact .pure _
  · split
    · exact .throw _
    · exact .pure _

theorem evalRowCompare_same (clock : Calendar.Clock) (op : CompareOp) {p q p' q' : RowOperand}
    (hl : p.Same I p') (hr : q.Same I q') :
    Eval.Same I (evalRowCompare clock op p q) (evalRowCompare clock op p' q') := by
  refine hl.row.bind fun row? => ?_
  split
  · exact .pure _
  · exact evalRowTest_same clock op _ hr

theorem evalBetween_same (clock : Calendar.Clock) (negated : Bool)
    {p low high p' low' high' : RowOperand} (hp : p.Same I p') (hl : low.Same I low')
    (hh : high.Same I high') :
    Eval.Same I (evalBetween clock negated p low high)
      (evalBetween clock negated p' low' high') := by
  refine hp.row.bind fun row? => ?_
  split
  · exact .pure _
  · exact .pure _
  · refine Eval.Same.bind ?_ fun above => ?_
    · split
      · exact hl.value.bind fun v => .pure _
      · exact evalRowTest_same clock _ _ hl
    · split
      · exact .pure _
      · refine Eval.Same.bind ?_ fun below => .pure _
        split
        · exact hh.value.bind fun v => .pure _
        · exact evalRowTest_same clock _ _ hh

theorem evalQuantified_same (clock : Calendar.Clock) (op : CompareOp) (combine : List Truth → Truth)
    {row row' : Eval (Option (List Value))} {rows rows' : Nat → Eval (List (List Value))}
    (hr : Eval.Same I row row') (hs : ∀ width, Eval.Same I (rows width) (rows' width)) :
    Eval.Same I (evalQuantified clock op combine row rows)
      (evalQuantified clock op combine row' rows') := by
  refine hr.bind fun row? => ?_
  split
  · exact .pure _
  · exact (hs _).bind fun _ => .pure _

theorem rowOperand_same (text : String) (hv : Eval.Same I x x')
    {row? row?' : Option (Eval (Option (List Value)))} (hr : Option.Rel (Eval.Same I) row? row?') :
    (rowOperand text x row?).Same I (rowOperand text x' row?') := by
  refine ⟨rfl, hv, ?_⟩
  cases hr with
  | some h => exact h
  | none => exact hv.bind fun v => .pure _

theorem evalListItem_same (width : Nat) {p q : RowOperand} (h : p.Same I q) (isRow : Bool) :
    Eval.Same I (evalListItem width p isRow) (evalListItem width q isRow) := by
  have last (row : List Value) : Eval.Same I
      (do
        if row.length != width then throw (.rowWidth p.text width)
        return row)
      (do
        if row.length != width then throw (.rowWidth q.text width)
        return row) := by
    rw [h.text]
    dsimp only
    split
    · exact (Eval.Same.throw _).bind fun _ => .pure _
    · exact .pure _
  unfold evalListItem
  dsimp only
  split
  · exact h.row.bind fun row? => (Eval.Same.pure _).bind last
  · exact h.value.bind fun v => (Eval.Same.pure _).bind last

theorem assignVariable_same (A : Env.Agreement I P R) {name : String} {e : Expr}
    (h : P (.expr (.assign name e))) (v : Value) :
    Eval.Same I (assignVariable name v) (assignVariable name v) := by
  intro s hs
  refine ⟨rfl, ?_⟩
  rw [assignVariable, Eval.exec_bind]
  simp only [Eval.exec_get, Eval.execThen]
  rw [Eval.exec_bind, Eval.exec_lift]
  cases ht : s.setVariable name v with
  | error e => exact hs
  | ok t => exact A.assign h v s t hs ht

end TableQuery
