import TableQuery.Proofs.Evaluation.Operators

/-!
# Agreement of function calls
-/

namespace TableQuery

variable {I : Scope → Prop} {P : Part → Prop} {R : Env → Env → Prop}

theorem userFunction?_same (name : String) :
    Eval.Same I (userFunction? name) (userFunction? name) :=
  Eval.Same.get.bind fun _ => .pure _

theorem evalMembers_same (A : Env.Agreement I P R) {o : Operand} (ho : o.Agrees I R) {a b : Env}
    (h : R a b) (header : Header) (rows : List Record) :
    Eval.Same I (evalMembers o a header rows) (evalMembers o b header rows) :=
  .mapM fun row _ => ho _ _ (A.rebind h header row)

theorem evalOverGroup_same (A : Env.Agreement I P R) (call : Expr) (name : String)
    (distinct : Bool) {o : Operand} (ho : o.Agrees I R) {a b : Env} (h : R a b)
    {reduce reduce' : List Value → Eval Value} (hr : ∀ vs, Eval.Same I (reduce vs) (reduce' vs)) :
    Eval.Same I (evalOverGroup call name distinct o a reduce)
      (evalOverGroup call name distinct o b reduce') := by
  unfold evalOverGroup
  rw [A.group h, A.clock h]
  refine (Eval.Same.lift _).bind fun group => (Eval.Same.lift _).bind fun counts => ?_
  split
  · exact .pure _
  · split
    · exact .throw _
    · exact (evalMembers_same A ho h _ _).bind fun vs => hr _

theorem evalAggregate_same (A : Env.Agreement I P R) (call : Expr) (name : String)
    (distinct : Bool) {args : List Operand} (ha : ∀ o ∈ args, o.Agrees I R) {a b : Env}
    (h : R a b) :
    Eval.Same I (evalAggregate call name distinct args a)
      (evalAggregate call name distinct args b) := by
  unfold evalAggregate
  split
  · rw [A.clock h]
    refine (Eval.Same.lift _).bind fun _ => ?_
    exact evalOverGroup_same A call name distinct (ha _ (by simp)) h fun vs => .pure _
  · exact .throw _
  · refine (userFunction?_same name).bind fun f? => ?_
    split
    · exact .throw _
    · exact .throw _
    · exact .throw _
    · refine (Eval.Same.lift _).bind fun _ => ?_
      refine evalOverGroup_same A call name distinct (ha _ (by simp)) h fun vs => ?_
      refine (evalAll_same (fun o ho => ha o (by simp [ho])) h).bind fun extra => ?_
      exact .lift _

theorem evalCall_same (A : Env.Agreement I P R) (call : Expr) (name : String)
    {args : List Operand} (ha : ∀ o ∈ args, o.Agrees I R) {a b : Env} (h : R a b) :
    Eval.Same I (evalCall call name args a) (evalCall call name args b) := by
  unfold evalCall
  split
  · rw [A.clock h]
    exact (evalAll_same ha h).bind fun vs => .lift _
  · refine (userFunction?_same name).bind fun f? => ?_
    split
    · exact .throw _
    · exact evalAggregate_same A call name false ha h
    · refine (Eval.Same.lift _).bind fun _ => (evalAll_same ha h).bind fun vs => .lift _

theorem evalSortKeys_same (A : Env.Agreement I P R) {order : List SortOperand}
    (ho : ∀ o ∈ order, o.toOperand.Agrees I R) {a b : Env} (h : R a b) :
    Eval.Same I (evalSortKeys order a) (evalSortKeys order b) := by
  unfold evalSortKeys
  rw [A.clock h]
  exact (Eval.Same.mapM fun o hm => ho o hm a b h).bind fun vs => .pure _

theorem sortMembers_same (A : Env.Agreement I P R) {order : List SortOperand}
    (ho : ∀ o ∈ order, o.toOperand.Agrees I R) {a b : Env} (h : R a b) (header : Header)
    (rows : List Record) :
    Eval.Same I (sortMembers order a header rows) (sortMembers order b header rows) := by
  unfold sortMembers
  split
  · exact .pure _
  · refine (Eval.Same.mapM fun row _ => ?_).bind fun keys => .pure _
    exact evalSortKeys_same A ho (A.rebind h _ _)

theorem evalSeparator_same (name : String) {further : List Operand}
    (hf : ∀ o ∈ further, o.Agrees I R) {a b : Env} (h : R a b) :
    Eval.Same I (evalSeparator name further a) (evalSeparator name further b) := by
  unfold evalSeparator
  split
  · exact .pure _
  · refine (hf _ (by simp) a b h).bind fun v => ?_
    split
    · exact .pure _
    · exact .throw _

theorem evalJoined_same (A : Env.Agreement I P R) (call : Expr) (name : String) (distinct : Bool)
    {argument : Operand} (ha : argument.Agrees I R) {order : List SortOperand}
    (ho : ∀ o ∈ order, o.toOperand.Agrees I R) {a b : Env} (h : R a b) (separator : String) :
    Eval.Same I (evalJoined call name distinct argument order a separator)
      (evalJoined call name distinct argument order b separator) := by
  unfold evalJoined
  rw [A.group h, A.clock h]
  refine (Eval.Same.lift _).bind fun group => ?_
  split
  · exact .throw _
  · refine (sortMembers_same A ho h _ _).bind fun rows => ?_
    exact (evalMembers_same A ha h _ _).bind fun vs => .pure _

theorem evalListAggregate_same (A : Env.Agreement I P R) (call : Expr) (name : String)
    (distinct : Bool) {args : List Operand} (ha : ∀ o ∈ args, o.Agrees I R)
    {order : List SortOperand} (ho : ∀ o ∈ order, o.toOperand.Agrees I R) {a b : Env}
    (h : R a b) :
    Eval.Same I (evalListAggregate call name distinct args order a)
      (evalListAggregate call name distinct args order b) := by
  unfold evalListAggregate
  refine (Eval.Same.lift _).bind fun _ => ?_
  split
  · exact .pure _
  · refine (evalSeparator_same name (fun o hm => ha o (by simp [hm])) h).bind fun separator => ?_
    exact evalJoined_same A call name distinct (ha _ (by simp)) ho h separator

end TableQuery
