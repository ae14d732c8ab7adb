import TableQuery.Proofs.Evaluation.Computed

/-!
# Aggregates over groups

A built-in aggregate call reduces the values that its argument has on the members of a group. A
computed column holds one value for the group, which stands beside its first member; so the members
that the argument sees are the original rows only as long as it does not look at such a column.
-/

namespace TableQuery

open Eval

/-! ## Built-in aggregate calls -/

/-- What a built-in aggregate call does with a group: it evaluates an argument for every member, the
members in some order, and reduces the values. -/
structure Reduction where
  argument : Expr
  order : List OrderItem
  /-- Evaluated once for the group, before its members. -/
  reducer : Env → Eval (List Value → Value)

/-- Whether an aggregate counts the members without looking at them. `DISTINCT` has no effect then.
-/
def Aggregate.countsLiteral (f : Aggregate) : Expr → Bool
  | .literal .null => false
  | .literal _ => f == .count
  | _ => false

/-- How a call of an aggregate reduces the values of its argument. -/
def Aggregate.reduction (f : Aggregate) (distinct : Bool) (argument : Expr) : Reduction where
  argument := argument
  order := []
  reducer env := pure fun vs =>
    f.eval env.clock (distinctIf env.clock (distinct && !f.countsLiteral argument) vs)

/-- How a call that joins texts reduces the values of its first argument. -/
def joinReduction (name : String) (distinct : Bool) (argument : Expr) (further : List Expr)
    (order : List OrderItem) : Reduction where
  argument := argument
  order := order
  reducer env := do
    let separator ← evalSeparator name (operands further) env
    return fun vs => joinTexts separator (distinctIf env.clock distinct vs)

/-- The reduction of a built-in aggregate call of an expression. -/
def Expr.reduction? : Expr → Option Reduction
  | .aggregate _ _ [.allColumns] | .aggregate _ _ [.tableColumns _] => none
  | .aggregate name distinct [argument] =>
    (Aggregate.ofName? name).map fun f => f.reduction distinct argument
  | .listAggregate name distinct [argument] order =>
    some (joinReduction name distinct argument [] order)
  | .listAggregate name distinct [argument, separator] order =>
    some (joinReduction name distinct argument [separator] order)
  | _ => none

/-- The values of the argument on the given rows, reduced. -/
def Reduction.onRows (r : Reduction) (header : Header) (rows : List Record) (env : Env) :
    Eval Value := do
  let reduce ← r.reducer env
  let rows ← sortMembers (sortOperands r.order) env header rows
  return reduce (← evalMembers ⟨r.argument, fun env => r.argument.eval env⟩ env header rows)

variable {call : Expr} {r : Reduction} {env : Env} {b : Binding} {s : Scope}

theorem lookedUp_of_reduction (hr : call.reduction? = some r) : call.lookedUp := by
  cases call <;> first | rfl | cases hr

theorem countsMembers_eq {f : Aggregate} {name : String} (hf : Aggregate.ofName? name = some f)
    (call : Expr) {argument : Expr} (all : argument ≠ .allColumns)
    (table : ∀ name, argument ≠ .tableColumns name) :
    countsMembers call name argument = .ok (f.countsLiteral argument) := by
  have counting : (Aggregate.ofName? name == some .count) = (f == .count) := by rw [hf]; rfl
  cases argument with
  | allColumns => exact absurd rfl all
  | tableColumns name => exact absurd rfl (table name)
  | literal l =>
    cases l with
    | null => rfl
    | _ => exact congrArg Except.ok counting
  | _ => rfl

/-- Counting the members is counting the values of a literal on them. -/
theorem onRows_of_countsLiteral {f : Aggregate} {argument : Expr}
    (h : f.countsLiteral argument = true) (distinct : Bool) (header : Header)
    (rows : List Record) (env : Env) :
    (f.reduction distinct argument).onRows header rows env = pure (.ofNat rows.length) := by
  obtain ⟨l, rfl, hl, rfl⟩ : ∃ l, argument = .literal l ∧ l.value.isNull = false ∧ f = .count := by
    cases argument with
    | literal l =>
      cases l with
      | null => cases h
      | _ => exact ⟨_, rfl, rfl, eq_of_beq h⟩
    | _ => cases h
  -- a literal is looked up nowhere, so it has one value on all members
  have values : evalMembers ⟨.literal l, fun env => Expr.eval (.literal l) env⟩ env header rows
      = pure (rows.map fun _ => l.value) := by
    unfold evalMembers
    dsimp only
    simp only [Expr.eval, Env.known?]
    exact List.mapM_pure
  unfold Reduction.onRows Aggregate.reduction
  dsimp only
  rw [sortOperands, pure_bind, sortMembers, if_pos List.isEmpty_nil, pure_bind, values, pure_bind,
    h, Bool.not_true, Bool.and_false]
  refine congrArg (fun n => pure (Value.ofNat n)) ?_
  have kept : ∀ v ∈ rows.map fun _ => l.value, (!v.isNull) = true := by
    intro v hv
    obtain ⟨_, _, rfl⟩ := List.mem_map.mp hv
    rw [hl, Bool.not_false]
  show ((rows.map fun _ => l.value).filter fun v => !v.isNull).length = rows.length
  rw [List.filter_eq_self.mpr kept, List.length_map]

/-- An aggregate reduces the values of its argument on the members of the innermost group. -/
theorem evalOverGroup_eq {f : Aggregate} {name : String} (hf : Aggregate.ofName? name = some f)
    (distinct : Bool) {argument : Expr} (all : argument ≠ .allColumns)
    (table : ∀ name, argument ≠ .tableColumns name) (plain : argument.hasAggregate = false)
    (group : env.group name = .ok b) :
    evalOverGroup call name distinct ⟨argument, fun env => argument.eval env⟩ env
        (fun vs => return f.eval env.clock vs)
      = (f.reduction distinct argument).onRows b.header b.record.members env := by
  unfold evalOverGroup
  rw [group, countsMembers_eq hf call all table]
  show (if f.countsLiteral argument then _ else _) = _
  split
  · rename_i hcounts
    rw [onRows_of_countsLiteral hcounts, Record.members, List.length_map, List.length_range]
  · rename_i hvalues
    rw [Bool.not_eq_true] at hvalues
    unfold Reduction.onRows Aggregate.reduction
    dsimp only
    rw [plain, if_neg Bool.false_ne_true, sortOperands, pure_bind, sortMembers,
      if_pos List.isEmpty_nil, pure_bind, hvalues, Bool.not_false, Bool.and_true]

/-- A call that joins texts reduces the values of its first argument on the members. -/
theorem evalListAggregate_eq {name : String} (distinct : Bool) {argument : Expr}
    {further : List Expr} (hlength : further.length ≤ 1) {order : List OrderItem}
    (plain : argument.hasAggregate = false) (group : ∀ name, env.group name = .ok b) :
    evalListAggregate call name distinct (operands (argument :: further)) (sortOperands order) env
      = (joinReduction name distinct argument further order).onRows b.header b.record.members
          env := by
  have arity : checkArity name (.between 1 2) (operands (argument :: further)).length = .ok () := by
    match further with
    | [] | [_] => rfl
  unfold evalListAggregate Reduction.onRows joinReduction
  rw [arity]
  dsimp only [operands]
  rw [bind_assoc]
  show evalSeparator name (operands further) env >>= _ = _
  refine bind_congr fun separator => ?_
  unfold evalJoined
  rw [group, pure_bind, plain]
  rfl

/-- A call that is not known reduces the members of the innermost group. -/
theorem eval_reduction (hr : call.reduction? = some r) (plain : r.argument.hasAggregate = false)
    (grouped : b.grouped = true) (unknown : (env.bind b).known? call = none) :
    call.eval (env.bind b) = r.onRows b.header b.record.members (env.bind b) := by
  have group (name : String) : (env.bind b).group name = Except.ok b := by
    show (if b.grouped then Except.ok b else _) = _
    rw [grouped]
    rfl
  cases call with
  | aggregate name distinct args =>
    match args with
    | [] | _ :: _ :: _ => simp [Expr.reduction?] at hr
    | [argument] =>
      have all : argument ≠ .allColumns := by
        rintro rfl
        cases hr
      have table (name : String) : argument ≠ .tableColumns name := by
        rintro rfl
        cases hr
      rw [Expr.reduction?] at hr
      · obtain ⟨f, hf, rfl⟩ := Option.map_eq_some_iff.mp hr
        rw [Expr.eval, unknown]
        dsimp only [operands]
        unfold evalAggregate
        rw [hf]
        exact evalOverGroup_eq hf distinct all table plain (group name)
      · exact fun h => all h
      · exact fun name h => table name h
  | listAggregate name distinct args order =>
    match args with
    | [] | _ :: _ :: _ :: _ => simp [Expr.reduction?] at hr
    | [argument] | [argument, separator] =>
      cases hr
      rw [Expr.eval, unknown]
      exact evalListAggregate_eq distinct (by simp) plain group
  | _ => cases hr

/-! ## Rows and members -/

/-- What is answered alike at the end of a growth is answered alike before. -/
theorem Part.AnsweredAs.between {h g k : Header} (hg : h.Within g) (gk : g.Within k) {p : Part}
    (hp : p.AnsweredAs h k) : p.AnsweredAs h g := by
  cases p with
  | expr e =>
    cases e with
    | column table name => exact hg.find?_eq gk hp
    | _ => exact fun looked => hg.findComputed?_eq gk (hp looked)
  | rejoin => exact fun table name => hg.find?_eq gk (hp table name)

namespace Reduction

/-- No lookup that the call makes on a row is answered by a column that `g` has and `h` has not. -/
structure AnsweredAs (h g : Header) (r : Reduction) : Prop where
  argument : AllParts (Part.AnsweredAs h g) r.argument.parts
  order : AllParts (Part.AnsweredAs h g) (partsOfOrder r.order)

theorem AnsweredAs.between {h g k : Header} (hg : h.Within g) (gk : g.Within k)
    (hr : r.AnsweredAs h k) : r.AnsweredAs h g where
  argument p hp := (hr.argument p hp).between hg gk
  order p hp := (hr.order p hp).between hg gk

/-- Columns that answer no lookup do not show in the result. -/
theorem onRows_extended {h g : Header} {rows extended : List Record} (answered : r.AnsweredAs h g)
    (hrows : List.Forall₂ (Record.Extends h.width) rows extended) (env : Env) (s : Scope) :
    exec (r.onRows g extended env) s = exec (r.onRows h rows env) s := by
  have prepared : Eval.Same (fun _ => True) (r.reducer env) (r.reducer env) :=
    fun _ _ => ⟨rfl, trivial⟩
  have same : Eval.Same (fun _ => True) (r.onRows g extended env) (r.onRows h rows env) := by
    refine prepared.bind fun reduce => ?_
    refine sortMembers_extended answered.order env hrows fun rows extended hrows => ?_
    exact (evalMembers_extended answered.argument env hrows).bind fun vs => .pure _
  exact same.exec_eq trivial

/-- If a column answers for the argument, its values are those of the column. -/
theorem onRows_computed {g : Header} {i : Nat} (looked : r.argument.lookedUp)
    (hi : g.findComputed? r.argument.text = some i) (unordered : r.order = []) (rows : List Record)
    (env : Env) :
    r.onRows g rows env = do
      let reduce ← r.reducer env
      return reduce (rows.map fun row => row.value i) := by
  have values : evalMembers ⟨r.argument, fun env => r.argument.eval env⟩ env g rows
      = pure (rows.map fun row => row.value i) := by
    unfold evalMembers
    refine .trans (congrArg (fun f => rows.mapM f) (funext fun row => ?_)) List.mapM_pure
    have known : (env.rebind g row).known? r.argument = some (row.value i) := by
      have held := Env.computed?_bind { env with bindings := env.bindings.tail }
        { header := g, record := row } fun _ => r.argument.text
      rw [hi] at held
      rw [Env.known?_eq, if_pos looked]
      exact held
    exact Expr.eval_of_known known
  unfold onRows
  refine bind_congr fun reduce => ?_
  rw [unordered, sortOperands, sortMembers, if_pos List.isEmpty_nil, pure_bind, values, pure_bind]

end Reduction

/-! ## Aggregates of a select list -/

variable {v w : View} {groups : List (List Record)} {fields : List Field}

/-- A group whose view has no columns forgets its rows. -/
theorem members_of_no_columns {h : Header} (hwidth : h.width = 0) (rows : List Record)
    (extra : List Value) :
    ((Record.group h.width rows).append (.ofValues extra)).members.length ≤ 1 := by
  rw [hwidth]
  cases extra with
  | nil => exact Nat.zero_le _
  | cons a extra => exact Nat.le_refl _

/-- What a built-in aggregate call gives for a group, on the way of a select list without
assignments. It reduces the values of its argument on the rows of the group, the first of them
beside the values that were computed for the group and the others beside NULLs. So it reduces the
values on the rows alone if no lookup of the call is answered by a computed column; but if its whole
argument is, it reduces the value of that column and NULLs. The call itself is computed once, as
long as no other expression has its text. -/
theorem aggregate_reduces_members (grouped : v.Groups groups)
    (unassigned : Unassigned (partsOfFields fields)) (reached : v.Reaches fields env s w)
    (hb : b ∈ w.bindings) (hr : call.reduction? = some r)
    (plain : r.argument.hasAggregate = false) (own : call.OwnsText fields)
    (missing : v.header.findComputed? call.text = none) :
    ∃ rows ∈ groups, ∃ (extra : List Value) (b' : Binding),
      b'.Before v w (Record.group v.header.width rows) call.text ∧
      (w.header.findComputed? call.text = none → b' = b) ∧
      b'.record = (Record.group v.header.width rows).append (.ofValues extra) ∧
      exec (call.eval (env.bind b)) s
        = exec (r.onRows b'.header b'.record.members (env.bind b')) s ∧
      (v.header.width = 0 → b'.record.members.length ≤ 1) ∧
      (0 < v.header.width →
        b'.record.members = Record.beside extra rows ∧
        (r.AnsweredAs v.header w.header →
          exec (call.eval (env.bind b)) s = exec (r.onRows v.header rows (env.bind b')) s) ∧
        ∀ i, v.header.width ≤ i → b'.header.findComputed? r.argument.text = some i →
          r.argument.lookedUp → r.order = [] →
          exec (call.eval (env.bind b)) s = exec (do
            let reduce ← r.reducer (env.bind b')
            return reduce
              (rows.mapIdx fun j _ => if j = 0 then b'.record.value i else .null)) s) := by
  -- the record of `b` is a group with values beside it; its past `b'` has no column for the call
  have start : v.Traces call env s v := .start grouped.rectangular missing
  have traces := start.of_reaches unassigned own reached
  obtain ⟨q, hq, b', before, current, same⟩ := traces.eval_eq (lookedUp_of_reduction hr) hb
  rw [grouped.records] at hq
  obtain ⟨rows, hrows, rfl⟩ := List.mem_map.mp hq
  obtain ⟨extra, hrecord⟩ := before.grown
  obtain ⟨x, hvx, hxw, hx⟩ := before.passed
  obtain ⟨header, isGrouped⟩ : b'.header = x.header ∧ b'.grouped = true := by
    obtain ⟨_, -, rfl⟩ := List.mem_map.mp hx
    exact ⟨rfl, hvx.grouped.trans grouped.grouped⟩
  -- so the call was reduced at `b'`, over the members that `b'` has
  have unknown : (env.bind b').known? call = none := by
    rw [Env.known?_eq, if_pos (lookedUp_of_reduction hr), Env.computed?_bind, before.missing]
    rfl
  have value := same.trans (congrArg (exec · s) (eval_reduction hr plain isGrouped unknown))
  refine ⟨rows, hrows, extra, b', before, current, hrecord, value, fun hwidth => ?_,
    fun hwidth => ?_⟩
  · rw [hrecord]
    exact members_of_no_columns hwidth rows extra
  have members : b'.record.members = Record.beside extra rows := by
    rw [hrecord]
    exact Record.members_group_append hwidth (grouped.plain rows hrows) extra
  have widths : ∀ row ∈ rows, row.width = v.header.width :=
    fun row hrow => (grouped.plain rows hrows row hrow).width
  rw [members] at value
  refine ⟨members, fun answered => ?_, fun i hi computed looked unordered => ?_⟩
  · -- what is answered alike at `w` was answered alike when the call was computed
    have earlier := answered.between hvx.within hxw.within
    rw [value, header]
    exact Reduction.onRows_extended earlier (Record.beside_extends widths extra) _ s
  · have stored : b'.record.value i = extra.getD (i - v.header.width) .null := by
      have past : (Record.group v.header.width rows).width ≤ i := by rwa [Record.width_group]
      rw [hrecord, Record.value_append_right past, Record.width_group, Record.value_ofValues]
    rw [value, Reduction.onRows_computed looked computed unordered, stored,
      Record.map_value_beside widths hi]

/-- `SELECT 1 + 1, COUNT(1 + 1)` counts one of two rows: the other one has NULL beside it. -/
theorem aggregate_reduces_members_counted :
    let two : Expr := .arith .add (.literal (.integer 1)) (.literal (.integer 1))
    let call : Expr := .aggregate "COUNT" false [two]
    let fields : List Field := [.mk two none, .mk call none]
    let rows : List Record := [.ofValues [.integer 1], .ofValues [.integer 2]]
    let v : View := View.groupAll { header := .ofNames "t" ["a"], records := rows }
    let r : Reduction := Aggregate.count.reduction false two
    ∃ w b, v.Reaches fields {} {} w ∧ b ∈ w.bindings ∧ call.reduction? = some r ∧
      exec (call.eval (Env.bind {} b)) {} = (.ok (.integer 1), {}) ∧
      exec (r.onRows v.header rows (Env.bind {} b)) {} = (.ok (.integer 2), {}) := by
  intro two call fields rows v r
  -- the view after the first field: its value stands beside the first row only
  let w : View := (Stage.exec (do
    runWindows [] {}
    [({ expr := two, eval := fun env => two.eval env, aliasName := none, windows := [] } :
      SelectItem)].mapM fun item => item.resolve {}) v {}).1.2
  let b : Binding :=
    { header := ⟨[{ table := "t", name := "a", number := 1, fromTable := true }, .computed "1 + 1"]⟩
      record := ⟨[⟨[.integer 1, .integer 2]⟩, ⟨[.integer 2]⟩]⟩
      grouped := true }
  have hw : w.bindings = [b] := by rfl
  have grouped : v.Groups [rows] := by
    refine View.Rows.groupAll ⟨rfl, fun q hq => ?_⟩
    rcases List.mem_pair.mp hq with rfl | rfl
    · exact Record.ofValues_plain [.integer 1]
    · exact Record.ofValues_plain [.integer 2]
  have unassigned : Unassigned (partsOfFields fields) := by
    unfold Unassigned AllParts
    decide
  have own : call.OwnsText fields := by
    refine ⟨fun item hi => ?_, fun window hw => by cases hw⟩
    rcases List.mem_pair.mp hi with rfl | rfl
    · exact fun same => absurd same (by decide)
    · exact fun _ => rfl
  have reached : v.Reaches fields {} {} w :=
    ⟨[], _, List.nil_subset _, List.cons_subset.mpr ⟨List.mem_cons_self, List.nil_subset _⟩, rfl⟩
  have hb : b ∈ w.bindings := hw ▸ List.mem_singleton_self b
  obtain ⟨rs, hrs, extra, b', before, current, record, -, -, h⟩ :=
    aggregate_reduces_members grouped unassigned reached hb (rfl : call.reduction? = some r) rfl own
      rfl
  cases current rfl
  cases List.mem_singleton.mp hrs
  have counted := (h (by decide)).2.2 1 (by decide) rfl rfl rfl
  refine ⟨w, b, reached, hb, rfl, counted.trans rfl, rfl⟩

end TableQuery
