import TableQuery.Proofs.Evaluation.WindowAggregates

/-!
# What `COUNT` counts

`COUNT` of a wildcard or of a literal reads the size of the group off its first cell, and any other
argument is evaluated for every member. The first cell is that of the first column of the view as
long as the view has columns: its groups have as many members as rows. A group of a view without
columns has no cell until a value is computed for it, and that value stands for one member.
-/

namespace TableQuery

open Eval

variable {env : Env} {b : Binding} {s : Scope} {v w : View} {groups : List (List Record)}
  {fields : List Field} {call : Expr}

/-! ## Calls and the groups for which they were computed -/

/-- What is looked up on the way of a select list has the value that it had for one of the groups,
beside the values that were computed for that group before. -/
theorem eval_at_group (grouped : v.Groups groups) (unassigned : Unassigned (partsOfFields fields))
    (reached : v.Reaches fields env s w) (hb : b ∈ w.bindings) (looked : call.lookedUp)
    (own : call.OwnsText fields) (missing : v.header.findComputed? call.text = none) :
    ∃ rows ∈ groups, (Record.group v.header.width rows).Grown b.record ∧
      ∃ (extra : List Value) (b' : Binding),
      b'.Before v w (Record.group v.header.width rows) call.text ∧
      (w.header.findComputed? call.text = none → b' = b) ∧
      b'.record = (Record.group v.header.width rows).append (.ofValues extra) ∧
      b'.grouped = true ∧ v.header.Within b'.header ∧ b'.header.Within w.header ∧
      (env.bind b').known? call = none ∧
      exec (call.eval (env.bind b)) s = exec (call.eval (env.bind b')) s := by
  have traces := (View.Traces.start grouped.rectangular missing).of_reaches unassigned own reached
  obtain ⟨q, hq, own, b', before, current, same⟩ := traces.eval_grown looked hb
  rw [grouped.records] at hq
  obtain ⟨rows, hrows, rfl⟩ := List.mem_map.mp hq
  obtain ⟨extra, hrecord⟩ := before.grown
  obtain ⟨x, hvx, hxw, hx⟩ := before.passed
  obtain ⟨r, -, rfl⟩ := List.mem_map.mp hx
  refine ⟨rows, hrows, own, extra, _, before, current, hrecord,
    hvx.grouped.trans grouped.grouped, hvx.within, hxw.within, ?_, same⟩
  rw [Env.known?_eq, if_pos looked, Env.computed?_bind, before.missing]
  rfl

/-! ## Sizes of groups -/

theorem Record.length_members (r : Record) : r.members.length = r.groupSize := by
  rw [members, List.length_map, List.length_range]

/-- The size of a group that has values beside it. -/
theorem Record.groupSize_beside (width : Nat) (rows : List Record) (extra : List Value) :
    ((group width rows).append (.ofValues extra)).groupSize
      = if 0 < width then rows.length else min 1 extra.length := by
  split
  · rename_i columns
    exact groupSize_group_append columns rows _
  · rename_i columns
    rw [Nat.not_lt, Nat.le_zero] at columns
    subst columns
    cases extra with
    | nil => rfl
    | cons a extra =>
      rw [List.length_cons, Nat.min_eq_left (Nat.le_add_left 1 _)]
      rfl

/-! ## Counting -/

/-- How many of some values are counted: those that are not NULL, and of equivalent ones the first
if they are to be distinct. -/
def countedValues (clock : Calendar.Clock) (distinct : Bool) (vs : List Value) : Nat :=
  ((distinctIf clock distinct vs).filter fun a => !a.isNull).length

/-- `COUNT` of an argument over rows: the number of its counted values. -/
def countOver (distinct : Bool) (argument : Expr) (header : Header) (rows : List Record)
    (env : Env) : Eval Value := do
  let vs ← evalMembers ⟨argument, fun env => argument.eval env⟩ env header rows
  return .ofNat (countedValues env.clock distinct vs)

/-- Whether `COUNT` of an argument is the size of the group: it is for the wildcard and for the
literals other than NULL. -/
def Expr.standsForRow : Expr → Bool
  | .allColumns => true
  | .literal l => !l.value.isNull
  | _ => false

variable {name : String} {distinct : Bool} {argument : Expr}

theorem countsLiteral_count (h : argument ≠ .allColumns) :
    Aggregate.count.countsLiteral argument = argument.standsForRow := by
  cases argument with
  | allColumns => exact absurd rfl h
  | literal l => cases l <;> rfl
  | _ => rfl

theorem onRows_count (h : Aggregate.count.countsLiteral argument = false) (distinct : Bool)
    (header : Header) (rows : List Record) (env : Env) :
    (Aggregate.count.reduction distinct argument).onRows header rows env
      = countOver distinct argument header rows env := by
  unfold Reduction.onRows Aggregate.reduction countOver
  dsimp only
  rw [h, Bool.not_false, Bool.and_true, sortOperands, pure_bind, sortMembers,
    if_pos List.isEmpty_nil, pure_bind]
  rfl

/-- The values of `COUNT` at a group for which no column answers it. -/
theorem eval_count (hcount : Aggregate.ofName? name = some .count)
    (table : ∀ t, argument ≠ .tableColumns t) (plain : argument.hasAggregate = false)
    (grouped : b.grouped = true)
    (unknown : (env.bind b).known? (.aggregate name distinct [argument]) = none) :
    (Expr.aggregate name distinct [argument]).eval (env.bind b) =
      if argument.standsForRow then pure (.ofNat b.record.groupSize)
      else countOver distinct argument b.header b.record.members (env.bind b) := by
  by_cases all : argument = .allColumns
  · subst all
    exact eval_aggregate_allColumns hcount grouped unknown
  have reduced : (Expr.aggregate name distinct [argument]).reduction?
      = some (Aggregate.count.reduction distinct argument) := by
    rw [Expr.reduction?, hcount]
    · rfl
    · exact fun h => all h
    · exact fun t h => table t h
  rw [eval_reduction reduced plain grouped unknown, ← countsLiteral_count all]
  split
  · rename_i counts
    rw [onRows_of_countsLiteral counts, Record.length_members]
  · rename_i counts
    exact onRows_count (Bool.not_eq_true _ ▸ counts) distinct _ _ _

/-- Columns that answer no lookup of the argument do not show in the count. -/
theorem countOver_extended {h g : Header} {rows extended : List Record}
    (answered : AllParts (Part.AnsweredAs h g) argument.parts)
    (hrows : List.Forall₂ (Record.Extends h.width) rows extended) (distinct : Bool) (env : Env)
    (s : Scope) :
    exec (countOver distinct argument g extended env) s
      = exec (countOver distinct argument h rows env) s :=
  ((evalMembers_extended answered env hrows).bind fun _ => .pure _).exec_eq trivial

/-- **What `COUNT` gives for a group**, on the way of a select list without assignments. If the view
has columns, `COUNT(*)` and `COUNT` of a literal other than NULL are the number of rows, and `COUNT`
of another argument is the number of its counted values on the rows, the first of them beside the
values that were computed for the group so far and the others beside NULLs: these are the rows alone
if no lookup of the argument is answered by a computed column. `DISTINCT` has no effect on the
literals. A group of a view without columns has one member if a value was computed for it before, and
none otherwise, whatever its rows. -/
theorem count_counts_members (hcount : Aggregate.ofName? name = some .count)
    (table : ∀ t, argument ≠ .tableColumns t) (plain : argument.hasAggregate = false)
    (hcall : call = .aggregate name distinct [argument]) (grouped : v.Groups groups)
    (unassigned : Unassigned (partsOfFields fields)) (reached : v.Reaches fields env s w)
    (hb : b ∈ w.bindings) (own : call.OwnsText fields)
    (missing : v.header.findComputed? call.text = none) :
    ∃ rows ∈ groups, (Record.group v.header.width rows).Grown b.record ∧
      ∃ (extra : List Value) (b' : Binding),
      b'.Before v w (Record.group v.header.width rows) call.text ∧
      (w.header.findComputed? call.text = none → b' = b) ∧
      b'.record = (Record.group v.header.width rows).append (.ofValues extra) ∧
      (argument.standsForRow = true → exec (call.eval (env.bind b)) s
        = (.ok (.ofNat (if 0 < v.header.width then rows.length else min 1 extra.length)), s)) ∧
      (argument.standsForRow = false →
        exec (call.eval (env.bind b)) s
          = exec (countOver distinct argument b'.header b'.record.members (env.bind b')) s ∧
        b'.record.members.length
          = (if 0 < v.header.width then rows.length else min 1 extra.length) ∧
        (0 < v.header.width → b'.record.members = Record.beside extra rows ∧
          (AllParts (Part.AnsweredAs v.header w.header) argument.parts →
            exec (call.eval (env.bind b)) s
              = exec (countOver distinct argument v.header rows (env.bind b')) s))) := by
  subst hcall
  obtain ⟨rows, hrows, grown, extra, b', before, current, record, isGrouped, hvb, hbw, unknown,
    same⟩ := eval_at_group grouped unassigned reached hb rfl own missing
  have value := same.trans (congrArg (exec · s) (eval_count hcount table plain isGrouped unknown))
  have size := record ▸ Record.groupSize_beside v.header.width rows extra
  refine ⟨rows, hrows, grown, extra, b', before, current, record, fun stands => ?_, fun looks => ?_⟩
  · rw [value, stands, if_pos rfl, size]
    rfl
  rw [looks, if_neg Bool.false_ne_true] at value
  refine ⟨value, (Record.length_members _).trans size, fun columns => ?_⟩
  have members : b'.record.members = Record.beside extra rows := by
    rw [record]
    exact Record.members_group_append columns (grouped.plain rows hrows) extra
  refine ⟨members, fun answered => ?_⟩
  -- a column that answers no lookup at `w` answered none when the call was computed
  have earlier : AllParts (Part.AnsweredAs v.header b'.header) argument.parts :=
    fun p hp => (answered p hp).between hvb hbw
  have widths : ∀ row ∈ rows, row.width = v.header.width :=
    fun row hrow => (grouped.plain rows hrows row hrow).width
  rw [value, members]
  exact countOver_extended earlier (Record.beside_extends widths extra) distinct _ s

/-- `SELECT COUNT(*)` of one row without columns gives zero, and `SELECT COUNT(DISTINCT 1)` of two
rows gives two. -/
theorem count_counts_members_cells :
    let star : Expr := .aggregate "COUNT" false [.allColumns]
    let one : Expr := .aggregate "COUNT" true [.literal (.integer 1)]
    let bare : View := View.groupAll { header := ⟨[]⟩, records := [⟨[]⟩] }
    let rows : List Record := [.ofValues [.integer 1], .ofValues [.null]]
    let v : View := View.groupAll { header := .ofNames "t" ["a"], records := rows }
    exec (star.eval (Env.bind {} ⟨bare.header, ⟨[]⟩, true⟩)) {} = (.ok (.integer 0), {}) ∧
      exec (one.eval (Env.bind {} ⟨v.header, .group 1 rows, true⟩)) {} = (.ok (.integer 2), {}) := by
  intro star one bare rows v
  have untouched (v : View) (fields : List Field) : v.Reaches fields {} {} v :=
    ⟨[], [], List.nil_subset _, List.nil_subset _, rfl⟩
  have owns (e : Expr) (unwindowed : windowsOf [.mk e none] = []) :
      e.OwnsText [.mk e none] := by
    refine ⟨fun item hi _ => ?_, fun call hc => ?_⟩
    · rw [List.mem_singleton.mp hi]
    · rw [unwindowed] at hc
      cases hc
  have bareGroups : bare.Groups [[⟨[]⟩]] := by
    refine View.Rows.groupAll ⟨rfl, fun q hq => ?_⟩
    rw [List.mem_singleton.mp hq]
    exact Record.ofValues_plain []
  have groups : v.Groups [rows] := by
    refine View.Rows.groupAll ⟨rfl, fun q hq => ?_⟩
    rcases List.mem_pair.mp hq with rfl | rfl
    · exact Record.ofValues_plain [.integer 1]
    · exact Record.ofValues_plain [.null]
  have counts : Aggregate.ofName? "COUNT" = some .count := by decide
  have unassigned : Unassigned (partsOfFields [.mk star none]) ∧
      Unassigned (partsOfFields [.mk one none]) := by
    unfold Unassigned AllParts
    decide
  constructor
  · obtain ⟨rs, -, -, extra, b', -, current, record, size, -⟩ :=
      count_counts_members counts (fun _ h => by cases h) rfl rfl bareGroups unassigned.1
        (untouched bare [.mk star none]) (List.mem_singleton_self _) (owns star rfl) rfl
    -- nothing was computed before, so the record has no cell
    have nothing : [] = (Record.ofValues extra).cells := by
      rw [current rfl] at record
      exact congrArg Record.cells record
    cases extra with
    | nil => exact size rfl
    | cons a extra => cases nothing
  · obtain ⟨rs, hrs, -, extra, b', -, -, -, size, -⟩ :=
      count_counts_members counts (fun _ h => by cases h) rfl rfl groups unassigned.2
        (untouched v [.mk one none]) (List.mem_singleton_self _) (owns one rfl) rfl
    rw [List.mem_singleton.mp hrs] at size
    exact size rfl

end TableQuery
