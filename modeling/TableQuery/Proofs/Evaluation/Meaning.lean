import TableQuery.Proofs.Evaluation.Clauses
import TableQuery.Proofs.Evaluation.Sources

/-!
# Agreement of meanings

Expressions and queries mean the same in related environments. The proof goes by recursion on the
syntax, along the recursion of the evaluation, with one theorem for each of its functions.
-/

namespace TableQuery

variable {I : Scope → Prop} {P : Part → Prop} {R : Env → Env → Prop}

/-- All parts satisfy a predicate. -/
def AllParts (P : Part → Prop) (ps : List Part) : Prop :=
  ∀ p ∈ ps, P p

@[simp] theorem allParts_nil : AllParts P [] :=
  fun _ h => by cases h

@[simp] theorem allParts_cons (p : Part) (ps : List Part) :
    AllParts P (p :: ps) ↔ P p ∧ AllParts P ps :=
  List.forall_mem_cons

@[simp] theorem allParts_append (ps qs : List Part) :
    AllParts P (ps ++ qs) ↔ AllParts P ps ∧ AllParts P qs :=
  List.forall_mem_append

/-- What an expression is computed to, unless the record holds its value already. -/
theorem known_same (A : Env.Agreement I P R) {e : Expr} (he : P (.expr e)) {a b : Env} (h : R a b)
    {x y : Eval Value} (hxy : Eval.Same I x y) :
    Eval.Same I
      (match a.known? e with
        | some v => return v
        | none => x)
      (match b.known? e with
        | some v => return v
        | none => y) := by
  rw [A.known h he]
  split
  · exact .pure _
  · exact hxy

theorem truth_same {x y : Eval Truth} (h : Eval.Same I x y) :
    Eval.Same I (do return Value.truth (← x)) (do return Value.truth (← y)) :=
  h.bind fun t => .pure (Value.truth t)

/-- The rows of a list of values, or those of what is written in its place. -/
theorem rowsOr_same {x y : Eval Value} (hv : Eval.Same I x y)
    {rows rows' : Option (Eval (List (List Value)))} (hr : Option.Rel (Eval.Same I) rows rows') :
    Eval.Same I (rows.getD (return [[← x]])) (rows'.getD (return [[← y]])) := by
  cases hr with
  | some h => exact h
  | none => exact hv.bind fun v => .pure _

theorem isSome_of_rel {α β : Type} {r : α → β → Prop} {x : Option α} {y : Option β}
    (h : Option.Rel r x y) : x.isSome = y.isSome := by
  cases h <;> rfl

mutual

theorem Expr.eval_same (A : Env.Agreement I P R) (e : Expr) (he : AllParts P e.parts) {a b : Env}
    (h : R a b) : Eval.Same I (e.eval a) (e.eval b) := by
  have self : P (.expr e) := he _ e.self_mem_parts
  cases e with
  | literal l =>
    rw [Expr.eval, Expr.eval]
    exact known_same A self h (.pure _)
  | column table name =>
    rw [Expr.eval, Expr.eval, A.column h self]
    exact known_same A self h (.lift _)
  | allColumns =>
    rw [Expr.eval, Expr.eval]
    exact known_same A self h (.throw _)
  | tableColumns table =>
    rw [Expr.eval, Expr.eval]
    exact known_same A self h (.throw _)
  | parens e =>
    simp only [Expr.parts, allParts_cons] at he
    rw [Expr.eval, Expr.eval]
    exact known_same A self h (e.eval_same A he.2 h)
  | arith op l r =>
    simp only [Expr.parts, allParts_cons, allParts_append] at he
    rw [Expr.eval, Expr.eval]
    exact known_same A self h
      (evalArith_same op (l.eval_same A he.2.1 h) (r.eval_same A he.2.2 h))
  | signed sign e =>
    simp only [Expr.parts, allParts_cons] at he
    rw [Expr.eval, Expr.eval]
    exact known_same A self h ((e.eval_same A he.2 h).bind fun v => .pure _)
  | concat items =>
    simp only [Expr.parts, allParts_cons] at he
    rw [Expr.eval, Expr.eval]
    exact known_same A self h (evalConcat_same (operands_agree A items he.2) h "")
  | compare op l r =>
    simp only [Expr.parts, allParts_cons, allParts_append] at he
    have left := l.eval_same A he.2.1 h
    have right := r.eval_same A he.2.2 h
    have row := l.row?_same A he.2.1 h
    -- rows are compared in their own way
    by_cases hl : ∃ items, l = .rowValue items
    · obtain ⟨items, rfl⟩ := hl
      rw [Expr.eval, Expr.eval, A.clock h]
      exact known_same A self h (truth_same (evalRowCompare_same _ op
        (rowOperand_same _ left row) (rowOperand_same _ right (r.row?_same A he.2.2 h))))
    · have other (items : List Expr) (he : l = .rowValue items) : False := hl ⟨items, he⟩
      rw [Expr.eval, Expr.eval, A.clock h]
      · exact known_same A self h (left.bind fun x => right.bind fun y => .pure _)
      · exact other
      · exact other
  | is negated l r =>
    simp only [Expr.parts, allParts_cons, allParts_append] at he
    rw [Expr.eval, Expr.eval]
    exact known_same A self h
      ((l.eval_same A he.2.1 h).bind fun x => (r.eval_same A he.2.2 h).bind fun y => .pure _)
  | between negated e low high =>
    simp only [Expr.parts, allParts_cons, allParts_append] at he
    obtain ⟨_, ⟨he, hl⟩, hh⟩ := he
    rw [Expr.eval, Expr.eval, A.clock h]
    exact known_same A self h (truth_same (evalBetween_same _ negated
      (rowOperand_same _ (e.eval_same A he h) (e.row?_same A he h))
      (rowOperand_same _ (low.eval_same A hl h) (low.row?_same A hl h))
      (rowOperand_same _ (high.eval_same A hh h) (high.row?_same A hh h))))
  | like negated l r =>
    simp only [Expr.parts, allParts_cons, allParts_append] at he
    rw [Expr.eval, Expr.eval]
    exact known_same A self h
      ((l.eval_same A he.2.1 h).bind fun x => (r.eval_same A he.2.2 h).bind fun y => .pure _)
  | isIn negated e values =>
    simp only [Expr.parts, allParts_cons, allParts_append] at he
    rw [Expr.eval, Expr.eval, A.clock h]
    refine known_same A self h (.bind (evalQuantified_same _ _ _
      (rowOperand_same _ (e.eval_same A he.2.1 h) (e.row?_same A he.2.1 h)).row fun width => ?_)
      fun t => .pure _)
    exact rowsOr_same (values.eval_same A he.2.2 h) (values.rows?_same A he.2.2 width h)
  | any op e values =>
    simp only [Expr.parts, allParts_cons, allParts_append] at he
    rw [Expr.eval, Expr.eval, A.clock h]
    refine known_same A self h (truth_same (evalQuantified_same _ _ _
      (rowOperand_same _ (e.eval_same A he.2.1 h) (e.row?_same A he.2.1 h)).row fun width => ?_))
    exact rowsOr_same (values.eval_same A he.2.2 h) (values.rows?_same A he.2.2 width h)
  | all op e values =>
    simp only [Expr.parts, allParts_cons, allParts_append] at he
    rw [Expr.eval, Expr.eval, A.clock h]
    refine known_same A self h (truth_same (evalQuantified_same _ _ _
      (rowOperand_same _ (e.eval_same A he.2.1 h) (e.row?_same A he.2.1 h)).row fun width => ?_))
    exact rowsOr_same (values.eval_same A he.2.2 h) (values.rows?_same A he.2.2 width h)
  | existsIn q =>
    simp only [Expr.parts, allParts_cons] at he
    rw [Expr.eval, Expr.eval]
    exact known_same A self h ((q.run_same A he.2 h).bind fun v => .pure _)
  | subquery q =>
    simp only [Expr.parts, allParts_cons] at he
    rw [Expr.eval, Expr.eval]
    exact known_same A self h ((q.run_same A he.2 h).bind fun v => .lift _)
  | rowValue items =>
    rw [Expr.eval, Expr.eval]
    exact known_same A self h (.throw _)
  | valueList items =>
    rw [Expr.eval, Expr.eval]
    exact known_same A self h (.throw _)
  | call name args =>
    simp only [Expr.parts, allParts_cons] at he
    rw [Expr.eval, Expr.eval]
    exact known_same A self h (evalCall_same A _ name (operands_agree A args he.2) h)
  | aggregate name distinct args =>
    simp only [Expr.parts, allParts_cons] at he
    rw [Expr.eval, Expr.eval]
    exact known_same A self h
      (evalAggregate_same A _ name distinct (operands_agree A args he.2) h)
  | listAggregate name distinct args order =>
    simp only [Expr.parts, allParts_cons, allParts_append] at he
    rw [Expr.eval, Expr.eval]
    exact known_same A self h (evalListAggregate_same A _ name distinct
      (operands_agree A args he.2.1) (sortOperands_agree A order he.2.2) h)
  | window name distinct args partition order =>
    -- a window call is answered by its column or not at all
    rw [Expr.eval, Expr.eval]
    exact known_same A self h (.throw _)
  | case operand branches otherwise =>
    simp only [Expr.parts, allParts_cons, allParts_append] at he
    rw [Expr.eval, Expr.eval, A.clock h]
    exact known_same A self h (evalCase_same _ (optionEval_same A operand he.2.1.1 h)
      (branchEvals_same A branches he.2.1.2 h) (optionEval_same A otherwise he.2.2 h))
  | logic op l r =>
    simp only [Expr.parts, allParts_cons, allParts_append] at he
    rw [Expr.eval, Expr.eval]
    exact known_same A self h
      (evalLogic_same op (l.eval_same A he.2.1 h) (r.eval_same A he.2.2 h))
  | not e =>
    simp only [Expr.parts, allParts_cons] at he
    rw [Expr.eval, Expr.eval]
    exact known_same A self h ((e.eval_same A he.2 h).bind fun v => .pure _)
  | «variable» name =>
    rw [Expr.eval, Expr.eval]
    exact known_same A self h (Eval.Same.get.bind fun s => .lift _)
  | assign name e =>
    simp only [Expr.parts, allParts_cons] at he
    rw [Expr.eval, Expr.eval]
    exact known_same A self h
      ((e.eval_same A he.2 h).bind fun v => assignVariable_same A self v)
termination_by structural e

theorem Expr.row?_same (A : Env.Agreement I P R) (e : Expr) (he : AllParts P e.parts) {a b : Env}
    (h : R a b) : Option.Rel (Eval.Same I) (e.row? a) (e.row? b) := by
  cases e with
  | rowValue items =>
    simp only [Expr.parts, allParts_cons] at he
    exact .some ((evalAll_same (operands_agree A items he.2) h).map _)
  | subquery q =>
    simp only [Expr.parts, allParts_cons] at he
    exact .some ((q.run_same A he.2 h).bind fun v => .lift _)
  | _ => exact .none
termination_by structural e

theorem Expr.rows?_same (A : Env.Agreement I P R) (e : Expr) (he : AllParts P e.parts)
    (width : Nat) {a b : Env} (h : R a b) :
    Option.Rel (Eval.Same I) (e.rows? width a) (e.rows? width b) := by
  cases e with
  | valueList items =>
    simp only [Expr.parts, allParts_cons] at he
    exact .some (listRows_same A items he.2 width h)
  | subquery q =>
    simp only [Expr.parts, allParts_cons] at he
    exact .some ((q.run_same A he.2 h).bind fun v => .lift _)
  | _ => exact .none
termination_by structural e

theorem listRows_same (A : Env.Agreement I P R) (items : List Expr)
    (hi : AllParts P (partsOfList items)) (width : Nat) {a b : Env} (h : R a b) :
    Eval.Same I (listRows items width a) (listRows items width b) := by
  cases items with
  | nil => exact .pure _
  | cons item items =>
    simp only [partsOfList, allParts_append] at hi
    have rows := item.row?_same A hi.1 h
    have written := isSome_of_rel rows
    rw [listRows, listRows, written]
    refine (evalListItem_same width (rowOperand_same _ (item.eval_same A hi.1 h) rows) _).bind ?_
    exact fun row => (listRows_same A items hi.2 width h).bind fun rows => .pure _
termination_by structural items

theorem operands_agree (A : Env.Agreement I P R) (es : List Expr)
    (he : AllParts P (partsOfList es)) : ∀ o ∈ operands es, o.Agrees I R := by
  cases es with
  | nil =>
    intro o ho
    cases ho
  | cons e es =>
    simp only [partsOfList, allParts_append] at he
    rw [operands, List.forall_mem_cons]
    exact ⟨fun a b h => e.eval_same A he.1 h, operands_agree A es he.2⟩
termination_by structural es

theorem optionEval_same (A : Env.Agreement I P R) (e? : Option Expr)
    (he : AllParts P (partsOfOption e?)) {a b : Env} (h : R a b) :
    Option.Rel (Eval.Same I) (optionEval e? a) (optionEval e? b) := by
  cases e? with
  | none => exact .none
  | some e => exact .some (e.eval_same A he h)
termination_by structural e?

theorem optionOperand_agrees (A : Env.Agreement I P R) (e? : Option Expr)
    (he : AllParts P (partsOfOption e?)) : ∀ o ∈ optionOperand e?, o.Agrees I R := by
  cases e? with
  | none =>
    intro o ho
    cases ho
  | some e =>
    intro o ho
    cases ho
    exact fun a b h => e.eval_same A he h
termination_by structural e?

theorem branchEvals_same (A : Env.Agreement I P R) (branches : List Branch)
    (hb : AllParts P (partsOfBranches branches)) {a b : Env} (h : R a b) :
    BranchesSame I (branchEvals branches a) (branchEvals branches b) := by
  match branches with
  | [] => exact .nil
  | .mk condition result :: branches =>
    simp only [partsOfBranches, allParts_append] at hb
    exact .cons ⟨condition.eval_same A hb.1.1 h, result.eval_same A hb.1.2 h⟩
      (branchEvals_same A branches hb.2 h)
termination_by structural branches

theorem sortOperands_agree (A : Env.Agreement I P R) (items : List OrderItem)
    (hi : AllParts P (partsOfOrder items)) :
    ∀ o ∈ sortOperands items, o.toOperand.Agrees I R := by
  match items with
  | [] =>
    intro o ho
    cases ho
  | .mk key direction nulls :: items =>
    simp only [partsOfOrder, allParts_append] at hi
    rw [sortOperands, List.forall_mem_cons]
    exact ⟨fun a b h => key.eval_same A hi.1 h, sortOperands_agree A items hi.2⟩
termination_by structural items

theorem Expr.windowCalls_agree (A : Env.Agreement I P R) (e : Expr) (he : AllParts P e.parts) :
    ∀ c ∈ e.windowCalls, c.Agrees I R := by
  cases e with
  | literal | column | allColumns | tableColumns | existsIn | subquery | «variable» =>
    intro c hc
    cases hc
  | parens e | not e | signed _ e | assign _ e =>
    simp only [Expr.parts, allParts_cons] at he
    exact e.windowCalls_agree A he.2
  | arith _ l r | compare _ l r | logic _ l r | is _ l r | like _ l r | isIn _ l r | any _ l r
  | all _ l r =>
    simp only [Expr.parts, allParts_cons, allParts_append] at he
    exact List.forall_mem_append.mpr
      ⟨l.windowCalls_agree A he.2.1, r.windowCalls_agree A he.2.2⟩
  | between _ e low high =>
    simp only [Expr.parts, allParts_cons, allParts_append] at he
    exact List.forall_mem_append.mpr ⟨List.forall_mem_append.mpr
      ⟨e.windowCalls_agree A he.2.1.1, low.windowCalls_agree A he.2.1.2⟩,
      high.windowCalls_agree A he.2.2⟩
  | concat items | rowValue items | valueList items | call _ items | aggregate _ _ items =>
    simp only [Expr.parts, allParts_cons] at he
    exact listWindows_agree A items he.2
  | listAggregate _ _ args order =>
    simp only [Expr.parts, allParts_cons, allParts_append] at he
    exact List.forall_mem_append.mpr
      ⟨listWindows_agree A args he.2.1, orderWindows_agree A order he.2.2⟩
  | window name distinct args partition order =>
    simp only [Expr.parts, allParts_cons, allParts_append] at he
    obtain ⟨_, ⟨ha, hp⟩, ho⟩ := he
    rw [Expr.windowCalls, List.forall_mem_cons, List.forall_mem_append, List.forall_mem_append]
    exact ⟨⟨operands_agree A args ha, operands_agree A partition hp,
      sortOperands_agree A order ho⟩,
      ⟨listWindows_agree A args ha, listWindows_agree A partition hp⟩,
      orderWindows_agree A order ho⟩
  | case operand branches otherwise =>
    simp only [Expr.parts, allParts_cons, allParts_append] at he
    rw [Expr.windowCalls, List.forall_mem_append, List.forall_mem_append]
    exact ⟨⟨optionWindows_agree A operand he.2.1.1, branchWindows_agree A branches he.2.1.2⟩,
      optionWindows_agree A otherwise he.2.2⟩
termination_by structural e

theorem listWindows_agree (A : Env.Agreement I P R) (es : List Expr)
    (he : AllParts P (partsOfList es)) : ∀ c ∈ listWindows es, c.Agrees I R := by
  cases es with
  | nil =>
    intro c hc
    cases hc
  | cons e es =>
    simp only [partsOfList, allParts_append] at he
    exact List.forall_mem_append.mpr
      ⟨e.windowCalls_agree A he.1, listWindows_agree A es he.2⟩
termination_by structural es

theorem optionWindows_agree (A : Env.Agreement I P R) (e? : Option Expr)
    (he : AllParts P (partsOfOption e?)) : ∀ c ∈ optionWindows e?, c.Agrees I R := by
  cases e? with
  | none =>
    intro c hc
    cases hc
  | some e => exact e.windowCalls_agree A he
termination_by structural e?

theorem orderWindows_agree (A : Env.Agreement I P R) (items : List OrderItem)
    (hi : AllParts P (partsOfOrder items)) : ∀ c ∈ orderWindows items, c.Agrees I R := by
  match items with
  | [] =>
    intro c hc
    cases hc
  | .mk key _ _ :: items =>
    simp only [partsOfOrder, allParts_append] at hi
    exact List.forall_mem_append.mpr
      ⟨key.windowCalls_agree A hi.1, orderWindows_agree A items hi.2⟩
termination_by structural items

theorem branchWindows_agree (A : Env.Agreement I P R) (branches : List Branch)
    (hb : AllParts P (partsOfBranches branches)) : ∀ c ∈ branchWindows branches, c.Agrees I R := by
  match branches with
  | [] =>
    intro c hc
    cases hc
  | .mk condition result :: branches =>
    simp only [partsOfBranches, allParts_append] at hb
    exact List.forall_mem_append.mpr ⟨List.forall_mem_append.mpr
      ⟨condition.windowCalls_agree A hb.1.1, result.windowCalls_agree A hb.1.2⟩,
      branchWindows_agree A branches hb.2⟩
termination_by structural branches

theorem Query.run_same (A : Env.Agreement I P R) (q : Query) (hq : AllParts P q.parts) {a b : Env}
    (h : R a b) : Eval.Same I (q.run a) (q.run b) := by
  match q with
  | .mk recursive tables body order offset limit =>
    simp only [Query.parts, allParts_append] at hq
    obtain ⟨⟨⟨⟨ht, hb⟩, hk⟩, ho⟩, hl⟩ := hq
    rw [Query.run, Query.run]
    refine inlineTables_same A tables recursive ht h fun a b h => ?_
    exact (body.run_same A hb h).bind fun v => v.finish_same A (orderKeys_agree A order hk)
      (optionOperand_agrees A offset ho) (limit.clause?_agrees A hl) h
termination_by structural q

/-- Environments that are still related when the inline tables of a `WITH` clause are known. -/
theorem inlineTables_same (A : Env.Agreement I P R) (tables : List InlineDef) (recursive : Bool)
    (ht : AllParts P (partsOfTables tables)) {a b : Env} (h : R a b) {f g : Env → Eval View}
    (hf : ∀ a b, R a b → Eval.Same I (f a) (g b)) :
    Eval.Same I (inlineTables tables recursive a >>= f)
      (inlineTables tables recursive b >>= g) := by
  match tables with
  | [] => exact hf a b h
  | .mk name columns q :: tables =>
    simp only [partsOfTables, allParts_append] at ht
    rw [inlineTables, inlineTables, bind_assoc, bind_assoc]
    refine (inlineTable_same A recursive name columns (q.unionParts?_agree A ht.1)
      (fun a b h => q.run_same A ht.1 h) h).bind fun v => ?_
    exact inlineTables_same A tables recursive ht.2 (A.withInlineTable h _) hf
termination_by structural tables

theorem Query.unionParts?_agree (A : Env.Agreement I P R) (q : Query) (hq : AllParts P q.parts) :
    ∀ parts ∈ q.unionParts?, parts.Agrees I R := by
  match q with
  | .mk _ _ (.combine .union all left right) _ _ _ =>
    simp only [Query.parts, Body.parts, allParts_append] at hq
    intro parts hp
    cases hp
    exact ⟨fun a b h => left.run_same A hq.1.1.1.2.1 h,
      fun a b h => right.run_same A hq.1.1.1.2.2 h⟩
  | .mk _ _ (.combine .except _ _ _) _ _ _ | .mk _ _ (.combine .intersect _ _ _) _ _ _
  | .mk _ _ (.select ..) _ _ _ | .mk _ _ (.nested _) _ _ _ =>
    intro parts hp
    cases hp
termination_by structural q

theorem Limit.clause?_agrees (A : Env.Agreement I P R) (limit : Limit)
    (hl : AllParts P limit.parts) : ∀ c ∈ limit.clause?, c.Agrees I R := by
  cases limit with
  | all =>
    intro c hc
    cases hc
  | rows count percent ties =>
    intro c hc
    cases hc
    exact fun a b h => count.eval_same A hl h
termination_by structural limit

theorem orderKeys_agree (A : Env.Agreement I P R) (items : List OrderItem)
    (hi : AllParts P (partsOfOrder items)) : ∀ key ∈ orderKeys items, key.Agrees I R := by
  match items with
  | [] =>
    intro key hk
    cases hk
  | .mk key direction nulls :: items =>
    simp only [partsOfOrder, allParts_append] at hi
    rw [orderKeys, List.forall_mem_cons]
    exact ⟨⟨fun a b h => key.eval_same A hi.1 h, key.windowCalls_agree A hi.1⟩,
      orderKeys_agree A items hi.2⟩
termination_by structural items

theorem Body.run_same (A : Env.Agreement I P R) (body : Body) (hb : AllParts P body.parts)
    {a b : Env} (h : R a b) : Eval.Same I (body.run a) (body.run b) := by
  cases body with
  | select distinct fields sources condition groups having =>
    simp only [Body.parts, allParts_append] at hb
    obtain ⟨⟨⟨⟨hs, hw⟩, hg⟩, hh⟩, hf⟩ := hb
    rw [Body.run, Body.run]
    refine (loadAll_same (loaders_agree A sources hs) h).bind fun v => ?_
    exact v.selectFrom_same A (optionOperand_agrees A condition hw) (operands_agree A groups hg)
      (optionOperand_agrees A having hh) (selectItems_agree A fields hf) distinct h
  | combine op all left right =>
    simp only [Body.parts, allParts_append] at hb
    rw [Body.run, Body.run, A.clock h]
    exact (left.run_same A hb.1 h).bind fun v => (right.run_same A hb.2 h).bind fun w => .lift _
  | nested q => exact q.run_same A hb h
termination_by structural body

theorem selectItems_agree (A : Env.Agreement I P R) (fields : List Field)
    (hf : AllParts P (partsOfFields fields)) : ∀ item ∈ selectItems fields, item.Agrees I R := by
  match fields with
  | [] =>
    intro item hi
    cases hi
  | .mk e aliasName :: fields =>
    simp only [partsOfFields, allParts_append] at hf
    rw [selectItems, List.forall_mem_cons]
    exact ⟨⟨fun a b h => e.eval_same A hf.1 h, e.windowCalls_agree A hf.1⟩,
      selectItems_agree A fields hf.2⟩
termination_by structural fields

theorem loaders_agree (A : Env.Agreement I P R) (sources : List Source)
    (hs : AllParts P (partsOfSources sources)) :
    ∀ load ∈ loaders sources, LoaderAgrees I R load := by
  cases sources with
  | nil =>
    intro load hl
    cases hl
  | cons s sources =>
    simp only [partsOfSources, allParts_append] at hs
    rw [loaders, List.forall_mem_cons]
    exact ⟨fun a b h => s.load_same A hs.1 h, loaders_agree A sources hs.2⟩
termination_by structural sources

theorem Source.load_same (A : Env.Agreement I P R) (s : Source) (hs : AllParts P s.parts)
    {a b : Env} (h : R a b) : Eval.Same I (s.load a) (s.load b) := by
  cases s with
  | named name aliasName => exact loadNamed_same A name aliasName h
  | dual aliasName => exact .pure _
  | stdin aliasName => exact loadStdin_same A aliasName h
  | subquery q aliasName columns => exact (q.run_same A hs h).bind fun v => .lift _
  | values rows aliasName columns =>
    exact loadValues_same (operandRows_agree A rows hs) aliasName columns h
  | join kind left right m =>
    simp only [Source.parts, allParts_append] at hs
    obtain ⟨⟨⟨hleft, hright⟩, hm⟩, hrejoin⟩ := hs
    refine (left.load_same A hleft h).bind_of fun v _ _ hv => ?_
    refine (right.load_same A hright h).bind_of fun w _ _ hw => ?_
    refine joinViews_same A kind (m.meaning_agrees A hm) (fun byName => ?_) h
    cases hmerges : left.merges || right.merges with
    | true =>
      rw [m.byName_meaning] at byName
      rw [byName, hmerges] at hrejoin
      exact .inl fun a b h => A.reference h (hrejoin _ (by simp))
    | false =>
      rw [Bool.or_eq_false_iff] at hmerges
      exact .inr ⟨left.load_unmerged hmerges.1 hv, right.load_unmerged hmerges.2 hw⟩
termination_by structural s

theorem operandRows_agree (A : Env.Agreement I P R) (rows : List (List Expr))
    (hr : AllParts P (partsOfRows rows)) :
    ∀ row ∈ operandRows rows, ∀ o ∈ row, o.Agrees I R := by
  cases rows with
  | nil =>
    intro row hm
    cases hm
  | cons row rows =>
    simp only [partsOfRows, allParts_append] at hr
    rw [operandRows, List.forall_mem_cons]
    exact ⟨operands_agree A row hr.1, operandRows_agree A rows hr.2⟩
termination_by structural rows

theorem JoinMatch.meaning_agrees (A : Env.Agreement I P R) (m : JoinMatch)
    (hm : AllParts P m.parts) : m.meaning.Agrees I R := by
  cases m with
  | always | natural | «using» names =>
    intro c hc
    cases hc
  | on e =>
    intro c hc
    cases hc
    exact fun a b h => e.eval_same A hm h
termination_by structural m

end

end TableQuery
