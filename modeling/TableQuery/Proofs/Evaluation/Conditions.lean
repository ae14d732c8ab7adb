import TableQuery.Evaluation.Meaning
import TableQuery.Proofs.Evaluation.Run
import TableQuery.Proofs.Table.Extraction

/-!
# Conditions keep the true records

`WHERE` and `HAVING` evaluate their condition once for every record, and only then take the records
out of the view for which it was TRUE. Taking out reorders what is left, but what is kept comes out
in the order of the view.
-/

namespace TableQuery

open Eval

variable {v w : View} {condition : Operand} {env : Env} {s t : Scope} {flags : List Bool}
  {values : List Value}

/-- Flags for all records keep those beside the flags that are set. -/
theorem View.extract_flaggedIndices (length : flags.length = v.records.length) :
    v.extract (flaggedIndices flags) =
      { v with records := ((v.records.zip flags).filter Prod.snd).map Prod.fst } := by
  rw [extract, takeOut?_flaggedIndices length]
  rfl

theorem View.exec_keepWhere
    (h : exec (v.bindings.mapM fun b => condition.holdsAt env b) s = (.ok flags, t)) :
    exec (v.keepWhere condition env) s =
      (.ok { v with records := ((v.records.zip flags).filter Prod.snd).map Prod.fst }, t) := by
  have length : flags.length = v.records.length := by
    rw [length_of_exec_mapM h, View.bindings, List.length_map]
  rw [keepWhere, exec_bind_ok h, exec_pure, extract_flaggedIndices length]

theorem View.keepWhere_eq_ok (h : exec (v.keepWhere condition env) s = (.ok w, t)) :
    ∃ flags, exec (v.bindings.mapM fun b => condition.holdsAt env b) s = (.ok flags, t) ∧
      flags.length = v.records.length ∧
      w = { v with records := ((v.records.zip flags).filter Prod.snd).map Prod.fst } := by
  obtain ⟨flags, _, hflags, h⟩ := exec_bind_eq_ok h
  cases h
  have length : flags.length = v.records.length := by
    rw [length_of_exec_mapM hflags, View.bindings, List.length_map]
  exact ⟨flags, hflags, length, extract_flaggedIndices length⟩

/-! ## Truth values -/

/-- The records beside the values whose truth is TRUE. -/
def View.trueRecords (v : View) (values : List Value) : List Record :=
  ((v.records.zip values).filter fun (_, x) => x.toTruth == .yes).map Prod.fst

theorem Truth.holds_eq_beq (p : Truth) : p.holds = (p == .yes) := by
  cases p <;> rfl

/-- Whether a condition holds is what its values tell. -/
theorem exec_holdsAt (condition : Operand) (env : Env) (bs : List Binding) (s : Scope) :
    exec (bs.mapM fun b => condition.holdsAt env b) s =
      match exec (condition.evalEach env bs) s with
      | (.ok values, t) => (.ok (values.map fun x => x.toTruth.holds), t)
      | (.error e, t) => (.error e, t) := by
  induction bs generalizing s with
  | nil => rfl
  | cons b bs ih =>
    rw [Operand.evalEach, List.mapM_cons, List.mapM_cons, Operand.holdsAt, bind_assoc, exec_bind,
      exec_bind]
    rcases exec (condition.eval (env.bind b)) s with ⟨e | x, t⟩
    · rfl
    · dsimp only [execThen]
      rw [pure_bind, exec_bind, exec_bind, ih, Operand.evalEach]
      rcases exec (bs.mapM fun b => condition.eval (env.bind b)) t with ⟨e | xs, u⟩ <;> rfl

theorem View.zip_flags (v : View) (values : List Value) :
    ((v.records.zip (values.map fun x => x.toTruth.holds)).filter Prod.snd).map Prod.fst =
      v.trueRecords values := by
  rw [List.zip_map_right, List.filter_map, List.map_map, trueRecords]
  refine congrArg _ (List.filter_congr fun p _ => ?_)
  exact Truth.holds_eq_beq _

/-- `WHERE` keeps exactly the records for which the condition is TRUE, in their order, and fails
where its condition fails. The records at ascending indices of the view are always there when
extraction comes to take them. -/
theorem where_keeps_true_records :
    (∀ (v : View) (condition : Operand) (env : Env) (s t : Scope) (values : List Value),
      exec (condition.evalEach env v.bindings) s = (.ok values, t) →
      values.length = v.records.length ∧
      exec (v.keepWhere condition env) s = (.ok { v with records := v.trueRecords values }, t)) ∧
    (∀ (v : View) (condition : Operand) (env : Env) (s t : Scope) (e : QueryError),
      exec (condition.evalEach env v.bindings) s = (.error e, t) →
      exec (v.keepWhere condition env) s = (.error e, t)) ∧
    ∀ (v : View) (indices : List Nat), indices.Pairwise (· < ·) →
      (∀ i ∈ indices, i < v.records.length) →
      ∃ taken left, takeOut? v.records.toArray indices = some (taken, left) ∧
        v.extract indices = { v with records := taken } ∧
        taken.map some = indices.map fun i => v.records[i]? := by
  refine ⟨fun v condition env s t values h => ⟨?_, ?_⟩, fun v condition env s t e h => ?_,
    fun v indices ascending inside => ?_⟩
  · rw [length_of_exec_mapM h, View.bindings, List.length_map]
  · have flags := exec_holdsAt condition env v.bindings s
    rw [h] at flags
    rw [View.exec_keepWhere flags, View.zip_flags]
  · have flags := exec_holdsAt condition env v.bindings s
    rw [h] at flags
    rw [View.keepWhere, exec_bind, flags]
    rfl
  · obtain ⟨taken, left, run, found, -, -⟩ := takeOut?_ascending v.records.toArray
      ascending inside
    refine ⟨taken, left, run, ?_, found.trans (List.map_congr_left fun i _ => ?_)⟩
    · rw [View.extract, run]
      rfl
    · exact List.getElem?_toArray

/-- `WHERE a > 2` over `1`, NULL, `3` and `4` keeps the last two: it is FALSE for the first record
and UNKNOWN for the second. -/
theorem where_keeps_true_records_unknown :
    let row (x : Value) : Record := .ofValues [x]
    let v : View := .ofRows (.ofNames "t" ["a"])
      [[.integer 1], [.null], [.integer 3], [.integer 4]]
    let c : Expr := .compare .greater (.column none "a") (.literal (.integer 2))
    exec (v.keepWhere ⟨c, fun env => c.eval env⟩ {}) {} =
        (.ok { v with records := [row (.integer 3), row (.integer 4)] }, {}) ∧
      ∃ taken, v.extract [0, 1, 3] = { v with records := taken } ∧
        taken.map some = [some (row (.integer 1)), some (row .null), some (row (.integer 4))] := by
  intro row v c
  obtain ⟨keeps, -, extracts⟩ := where_keeps_true_records
  have run : exec (Operand.evalEach ⟨c, fun env => c.eval env⟩ {} v.bindings) {} =
      (.ok [.truth .no, .truth .unknown, .truth .yes, .truth .yes], {}) := by rfl
  obtain ⟨taken, -, -, made, found⟩ := extracts v [0, 1, 3] (by decide) (by decide)
  exact ⟨(keeps v _ _ _ _ _ run).2, taken, made, found⟩

end TableQuery
