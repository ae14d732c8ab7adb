import TableQuery.Proofs.Join.Tasks

/-!
# Joins that assign variables

A join whose condition is seen to assign a variable runs in one chunk. An assignment is seen
outside the queries that the condition nests, and only there. So a condition that assigns in a
nested query alone is matched chunk by chunk.
-/

namespace TableQuery

/-! ## Nested queries -/

/-- The query that an expression is made of, if it is one. -/
def Expr.query? : Expr → Option Query
  | .existsIn q | .subquery q => some q
  | _ => none

/-- The queries that an expression nests, outermost first; the queries in these are not entered. -/
def Expr.nested (e : Expr) : List Query :=
  e.nodes.filterMap Expr.query?

/-- The parts that an expression has besides those of its children. -/
def Expr.ownParts (e : Expr) : List Part :=
  .expr e :: e.query?.elim [] Query.parts

-- The parts are the nodes, each followed by what its query is made of.
mutual

theorem Expr.parts_eq_flatMap (e : Expr) : e.parts = e.nodes.flatMap Expr.ownParts := by
  rw [Expr.parts.eq_def, Expr.nodes.eq_def, List.flatMap_cons]
  cases e with
  | literal | column | allColumns | tableColumns | «variable» => rfl
  | existsIn q | subquery q =>
    simp [Expr.ownParts, Expr.query?]
  | parens e | not e | signed _ e | assign _ e =>
    exact congrArg _ e.parts_eq_flatMap
  | arith _ a b | compare _ a b | logic _ a b | is _ a b | like _ a b | isIn _ a b | any _ a b
  | all _ a b =>
    simp [Expr.ownParts, Expr.query?, a.parts_eq_flatMap, b.parts_eq_flatMap]
  | between _ e low high =>
    simp [Expr.ownParts, Expr.query?, e.parts_eq_flatMap, low.parts_eq_flatMap,
      high.parts_eq_flatMap]
  | concat items | rowValue items | valueList items | call _ items | aggregate _ _ items =>
    exact congrArg _ (partsOfList_eq_flatMap items)
  | listAggregate _ _ args order =>
    simp [Expr.ownParts, Expr.query?, partsOfList_eq_flatMap args, partsOfOrder_eq_flatMap order]
  | window _ _ args partition order =>
    simp [Expr.ownParts, Expr.query?, partsOfList_eq_flatMap args,
      partsOfList_eq_flatMap partition, partsOfOrder_eq_flatMap order]
  | case operand branches otherwise =>
    simp [Expr.ownParts, Expr.query?, partsOfOption_eq_flatMap operand,
      partsOfBranches_eq_flatMap branches, partsOfOption_eq_flatMap otherwise]

theorem partsOfList_eq_flatMap (es : List Expr) :
    partsOfList es = (nodesOfList es).flatMap Expr.ownParts := by
  cases es with
  | nil => rfl
  | cons e es => simp [partsOfList, nodesOfList, e.parts_eq_flatMap, partsOfList_eq_flatMap es]

theorem partsOfOption_eq_flatMap (e : Option Expr) :
    partsOfOption e = (nodesOfOption e).flatMap Expr.ownParts := by
  cases e with
  | none => rfl
  | some e => exact e.parts_eq_flatMap

theorem partsOfOrder_eq_flatMap (items : List OrderItem) :
    partsOfOrder items = (nodesOfOrder items).flatMap Expr.ownParts := by
  match items with
  | [] => rfl
  | .mk key _ _ :: items =>
    simp [partsOfOrder, nodesOfOrder, key.parts_eq_flatMap, partsOfOrder_eq_flatMap items]

theorem partsOfBranches_eq_flatMap (branches : List Branch) :
    partsOfBranches branches = (nodesOfBranches branches).flatMap Expr.ownParts := by
  match branches with
  | [] => rfl
  | .mk condition result :: branches =>
    simp [partsOfBranches, nodesOfBranches, condition.parts_eq_flatMap, result.parts_eq_flatMap,
      partsOfBranches_eq_flatMap branches]

end

/-- The parts of an expression are its nodes and the parts of the queries that it nests. -/
theorem Expr.mem_parts_iff {e : Expr} {p : Part} :
    p ∈ e.parts ↔ (∃ n ∈ e.nodes, p = .expr n) ∨ ∃ q ∈ e.nested, p ∈ q.parts := by
  have own (n : Expr) :
      p ∈ n.ownParts ↔ p = .expr n ∨ ∃ q, n.query? = some q ∧ p ∈ q.parts := by
    unfold ownParts
    cases n.query? <;> simp
  unfold nested
  simp only [Expr.parts_eq_flatMap, List.mem_flatMap, own, List.mem_filterMap, and_or_left,
    exists_or]
  refine or_congr_right ⟨?_, ?_⟩
  · rintro ⟨n, node, q, query, part⟩
    exact ⟨q, ⟨n, node, query⟩, part⟩
  · rintro ⟨q, ⟨n, node, query⟩, part⟩
    exact ⟨n, node, q, query, part⟩

/-! ## Assignments that are seen -/

theorem Part.assigns_expr (e : Expr) : (Part.expr e).assigns = e.isAssignment := by
  cases e <;> rfl

/-- An expression assigns where the assignment is seen, or in a query that it nests. -/
theorem Expr.exists_assigns_iff (e : Expr) :
    (∃ p ∈ e.parts, p.assigns = true) ↔
      e.hasAssignment = true ∨ ∃ q ∈ e.nested, ∃ p ∈ q.parts, p.assigns = true := by
  have seen : e.hasAssignment = true ↔ ∃ n ∈ e.nodes, (Part.expr n).assigns = true := by
    simp only [Part.assigns_expr]
    exact List.any_eq_true
  rw [seen]
  constructor
  · rintro ⟨p, part, assigns⟩
    obtain ⟨n, node, rfl⟩ | ⟨q, query, part⟩ := Expr.mem_parts_iff.mp part
    · exact .inl ⟨n, node, assigns⟩
    · exact .inr ⟨q, query, p, part, assigns⟩
  · rintro (⟨n, node, assigns⟩ | ⟨q, query, p, part, assigns⟩)
    · exact ⟨_, Expr.mem_parts_iff.mpr (.inl ⟨n, node, rfl⟩), assigns⟩
    · exact ⟨p, Expr.mem_parts_iff.mpr (.inr ⟨q, query, part⟩), assigns⟩

theorem unassigned_iff {ps : List Part} : Unassigned ps ↔ ¬∃ p ∈ ps, p.assigns = true := by
  simp [Unassigned, AllParts]

/-- An expression assigns nothing if no assignment is seen and its nested queries hold none. -/
theorem Expr.unassigned_of_unseen {e : Expr} (nested : ∀ q ∈ e.nested, Unassigned q.parts)
    (unseen : e.hasAssignment = false) : Unassigned e.parts := by
  refine unassigned_iff.mpr fun assigns => ?_
  obtain seen | ⟨q, query, assigns⟩ := e.exists_assigns_iff.mp assigns
  · exact Bool.false_ne_true (unseen.symm.trans seen)
  · exact unassigned_iff.mp (nested q query) assigns

/-- Forty records for each chunk are enough to split what is not seen to assign. -/
theorem forall_chunkCount_eq_one_iff {seen : Bool} :
    (∀ cpu count, chunkCount cpu count seen = 1) ↔ seen = true := by
  constructor
  · intro single
    cases seen with
    | true => rfl
    | false => exact absurd (single 2 80) (by decide)
  · rintro rfl cpu count
    rfl

/-- A join condition that assigns nothing leaves the scope as it is. -/
theorem JoinMatch.testPair_keeps (on : JoinMatch) {left right : Header}
    {pairs? : Option (List (Nat × Nat))}
    (pairs : on.meaning.pairs? left right = .ok pairs?) (unassigned : Unassigned on.parts)
    (env : Env) (r : Record) (s : Scope) :
    (Eval.exec (testPair (on.meaning.condition? left right pairs?) env (left.append right) r)
      s).2 = s := by
  have agreement := unassigned_agreement s
  have conditions := on.meaning.condition?_agreesOn agreement
    (on.meaning_agrees agreement unassigned) (fun _ => .inl fun _ _ h _ _ => h ▸ rfl) pairs
  exact (testPair_same conditions rfl r).keeps rfl

/-- The condition of a join that is written out. -/
def Expr.joinCondition (e : Expr) : JoinCondition :=
  .ofOperand ⟨e, fun env => e.eval env⟩

/-- An expression assigns a variable where this is seen, or in a query that it nests. As the
condition of a join it is matched in a single chunk, whatever the number of cores and of driving
records, exactly if an assignment is seen. If its evaluation can change the scope this is so, unless
one of its nested queries assigns. A condition that is not written out never changes the scope. -/
theorem single_chunk_iff_assignment_seen (e : Expr) :
    ((∃ p ∈ e.parts, p.assigns = true) ↔
      e.hasAssignment = true ∨ ∃ q ∈ e.nested, ∃ p ∈ q.parts, p.assigns = true) ∧
    ((∀ cpu count, chunkCount cpu count e.joinCondition.assigns = 1) ↔ e.hasAssignment = true) ∧
    ((∀ q ∈ e.nested, Unassigned q.parts) →
      (∃ env left right r s,
        (Eval.exec (testPair (some e.joinCondition) env (Header.append left right) r) s).2 ≠ s) →
      ∀ cpu count, chunkCount cpu count e.joinCondition.assigns = 1) ∧
    ∀ (on : JoinMatch) (left right : Header) (pairs? : Option (List (Nat × Nat))),
      on.meaning.pairs? left right = .ok pairs? → (∀ e, on ≠ .on e) → ∀ env r s,
        (Eval.exec (testPair (on.meaning.condition? left right pairs?) env (left.append right) r)
          s).2 = s := by
  refine ⟨e.exists_assigns_iff, forall_chunkCount_eq_one_iff, ?_, ?_⟩
  · rintro nested ⟨env, left, right, r, s, changes⟩
    refine forall_chunkCount_eq_one_iff.mpr ?_
    by_contra unseen
    rw [Bool.not_eq_true] at unseen
    -- nothing is assigned at all then, so the scope stays
    have unassigned := e.unassigned_of_unseen nested unseen
    exact changes (JoinMatch.testPair_keeps (.on e) rfl unassigned env r s)
  · intro on left right pairs? pairs unwritten env r s
    refine on.testPair_keeps pairs ?_ env r s
    cases on with
    | on e => exact absurd rfl (unwritten e)
    | always | natural | «using» => exact allParts_nil

/-- `@x := 1` is matched in a single chunk. `EXISTS (SELECT @x := 1)` assigns as well, but eighty
records are matched in two chunks. -/
theorem single_chunk_iff_assignment_seen_nested :
    let assign : Expr := .assign "x" (.literal (.integer 1))
    let body : Body := .select false [.mk assign none] [] none [] none
    let e : Expr := .existsIn (.mk false [] body [] none .all)
    let scope : Scope := { innermost := { vars := NameMap.insert {} "x" .null } }
    (∀ cpu count, chunkCount cpu count assign.joinCondition.assigns = 1) ∧
      (∃ p ∈ e.parts, p.assigns = true) ∧ chunkCount 2 80 e.joinCondition.assigns = 2 ∧
      (Eval.exec (testPair (some e.joinCondition) {} {} ⟨[]⟩) scope).2 ≠ scope := by
  intro assign body e scope
  refine ⟨?_, ?_, rfl, fun same => ?_⟩
  · refine (single_chunk_iff_assignment_seen assign).2.2.1 (fun q hq => by cases hq)
      ⟨{}, {}, {}, ⟨[]⟩, scope, fun same => ?_⟩
    cases congrArg (fun s => s.variableValue "x") same
  · refine (single_chunk_iff_assignment_seen e).1.mpr (.inr ⟨_, List.mem_singleton_self _, ?_⟩)
    exact ⟨.expr assign, List.mem_cons_self, rfl⟩
  · cases congrArg (fun s => s.variableValue "x") same

end TableQuery
