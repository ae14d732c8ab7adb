import TableQuery.Proofs.Evaluation.Order
import TableQuery.Proofs.Evaluation.RecursiveClauses
import TableQuery.Proofs.Syntax.Slicing
import TableQuery.Proofs.Value.KeyTuples

/-!
# Slices

An offset and a limit cut the rows of a query and change nothing else. The sort keys beside the rows
are cut with them, so that ties are looked for behind the last row of the slice. Only neighbours are
compared, and only up to the first that differ. That finds all ties because the rows are sorted, and
nothing but ties because keys that are integers or NULL tie only if they are the same.
-/

namespace TableQuery

open Calendar Eval TableQuery.Language

/-! ## Elements in front -/

section

variable {α : Type} {p : α → Bool} {less : α → α → Bool} {s : α → Prop} {a : α} {xs : List α}

/-- Where all that pass a test stand in front, looking there is looking everywhere. -/
theorem takeWhile_eq_filter (h : xs.Pairwise fun x y => p y = true → p x = true) :
    xs.takeWhile p = xs.filter p := by
  induction xs with
  | nil => rfl
  | cons x xs ih =>
    obtain ⟨first, rest⟩ := List.pairwise_cons.mp h
    cases hx : p x with
    | true => rw [List.takeWhile_cons_of_pos hx, List.filter_cons_of_pos hx, ih rest]
    | false =>
      have others : ∀ y ∈ xs, ¬ p y = true := fun y hy hpy =>
        Bool.false_ne_true (hx.symm.trans (first y hy hpy))
      rw [List.takeWhile_cons_of_neg (by simp [hx]), List.filter_cons_of_neg (by simp [hx]),
        List.filter_eq_nil_iff.mpr others]

/-- In a sorted list the elements that are not told apart from the first one stand behind it. -/
theorem pairwise_incomparable (trans : TransitiveOn less s) (mem : ∀ x ∈ a :: xs, s x)
    (sorted : (a :: xs).Pairwise (InOrder less)) :
    xs.Pairwise fun x y => Incomparable less a y → Incomparable less a x := by
  obtain ⟨behind, rest⟩ := List.pairwise_cons.mp sorted
  refine rest.imp_of_mem fun {x y} hx hy between level => ⟨behind x hx, ?_⟩
  exact trans x y a (mem x (by simp [hx])) (mem y (by simp [hy])) (mem a (by simp)) between level.2

theorem take_append_takeWhile (p : α → Bool) (k : Nat) (xs : List α) :
    xs.take k ++ (xs.drop k).takeWhile p = xs.take (k + ((xs.drop k).takeWhile p).length) := by
  rw [List.take_add, ← List.prefix_iff_eq_take.mp (List.takeWhile_prefix p)]

end

/-! ## Keys that are integers or NULL -/

/-- The value that is an integer or NULL. -/
def Value.ofInteger? (x : Option Int64) : Value :=
  x.elim .null .integer

namespace SortKey

variable (clock : Clock)

/-- The sort keys of integers and NULLs. -/
def ofIntegers (xs : List (Option Int64)) : List SortKey :=
  ofValues clock (xs.map Value.ofInteger?)

theorem ofIntegers_integral (xs : List (Option Int64)) :
    IntegralTuple xs.length (ofIntegers clock xs) where
  length := by rw [ofIntegers, ofValues, List.length_map, List.length_map]
  integral k hk := by
    obtain ⟨v, hv, rfl⟩ := List.mem_map.mp hk
    obtain ⟨x, -, rfl⟩ := List.mem_map.mp hv
    cases x with
    | none => exact .inl rfl
    | some i => exact .inr rfl

theorem ties_ofInteger? (x y : Option Int64) :
    (ofValue clock (Value.ofInteger? x)).ties (ofValue clock (Value.ofInteger? y)) = (x == y) := by
  cases x <;> cases y <;> rfl

/-- Integers and NULLs tie only if they are the same. -/
theorem tupleTies_ofIntegers (xs ys : List (Option Int64)) :
    tupleTies (ofIntegers clock xs) (ofIntegers clock ys) = (xs == ys) := by
  induction xs generalizing ys with
  | nil => cases ys <;> rfl
  | cons x xs ih =>
    cases ys with
    | nil => rfl
    | cons y ys =>
      show (ties _ _ && tupleTies (ofIntegers clock xs) (ofIntegers clock ys)) = _
      rw [ties_ofInteger?, ih]
      rfl

end SortKey

namespace View

open SortKey

/-! ## Extending by ties -/

variable {clock : Clock} {ts : List (List (Option Int64))} {k : Nat}

theorem tiesFrom_ofIntegers (last : List (Option Int64)) (ts : List (List (Option Int64))) :
    extendByTies.tiesFrom (ofIntegers clock last) (ts.map (ofIntegers clock)) =
      (ts.takeWhile (· == last)).length := by
  induction ts with
  | nil => rfl
  | cons t ts ih =>
    rw [List.map_cons, extendByTies.tiesFrom, tupleTies_ofIntegers]
    cases same : t == last with
    | true =>
      obtain rfl : t = last := beq_iff_eq.mp same
      rw [if_pos rfl, ih, List.takeWhile_cons, same, Nat.add_comm]
      rfl
    | false => rw [if_neg Bool.false_ne_true, List.takeWhile_cons_of_neg (by simp [same])]; rfl

/-- Whether a tuple is the last one of a slice. -/
def isLast (slice : List (List (Option Int64))) (t : List (Option Int64)) : Bool :=
  slice.getLast?.any (t == ·)

theorem isLast_take {n : Nat} {last : List (Option Int64)} {rest : List (List (Option Int64))}
    (h : ts.drop n = last :: rest) : isLast (ts.take (n + 1)) = (· == last) := by
  have there : ts[n]? = some last := by rw [← List.head?_drop, h]; rfl
  funext t
  rw [isLast, List.take_add_one, there, Option.toList_some, List.getLast?_concat]
  rfl

/-- Ties are looked for from the last row of the slice on. -/
theorem extendByTies_ofIntegers (positive : 0 < k) : extendByTies (ts.map (ofIntegers clock)) k =
    k + ((ts.drop k).takeWhile (isLast (ts.take k))).length := by
  obtain ⟨n, rfl⟩ : ∃ n, k = n + 1 := ⟨k - 1, by omega⟩
  rw [extendByTies, ← List.map_drop, ← List.tail_drop]
  cases h : ts.drop n with
  | nil => rfl
  | cons last rest =>
    rw [isLast_take h]
    exact congrArg (n + 1 + ·) (tiesFrom_ofIntegers last rest)

/-- In sorted tuples of one width all ties of the last row of a slice stand behind it. -/
theorem pairwise_isLast {orders : List KeyOrder} {width : Nat} (positive : 0 < k)
    (sorted : (ts.map (ofIntegers clock)).Pairwise (InOrder (tupleLess orders)))
    (wide : ∀ t ∈ ts, t.length = width) :
    (ts.drop k).Pairwise fun x y =>
      isLast (ts.take k) y = true → isLast (ts.take k) x = true := by
  obtain ⟨n, rfl⟩ : ∃ n, k = n + 1 := ⟨k - 1, by omega⟩
  rw [← List.tail_drop]
  cases h : ts.drop n with
  | nil => exact .nil
  | cons last rest =>
    have integral {t : List (Option Int64)} (ht : t ∈ last :: rest) :
        IntegralTuple width (ofIntegers clock t) := by
      rw [← wide t (List.mem_of_mem_drop (h ▸ ht))]
      exact ofIntegers_integral clock t
    have behind : ((last :: rest).map (ofIntegers clock)).Pairwise (InOrder (tupleLess orders)) :=
      sorted.sublist ((h ▸ List.drop_sublist n ts).map _)
    have level := pairwise_incomparable (tupleLess_transitiveOn_integral orders width)
      (List.forall_mem_map.mpr fun t ht => integral ht) behind
    have same {t : List (Option Int64)} (ht : t ∈ rest) : isLast (ts.take (n + 1)) t = true ↔
        Incomparable (tupleLess orders) (ofIntegers clock last) (ofIntegers clock t) := by
      rw [tupleTies_iff_incomparable (integral (by simp)) (integral (by simp [ht])),
        tupleTies_comm, tupleTies_ofIntegers, isLast_take h]
    refine (List.pairwise_map.mp level).imp_of_mem fun hx hy towards hlast => ?_
    exact (same hx).mpr (towards ((same hy).mp hlast))

/-! ## Slices of rows -/

end View

/-- The first rows, and behind them all later ones whose tuple is that of the last of them. -/
def sliceWithTies {α β : Type} [BEq β] (k : Nat) (rows : List (α × β)) : List (α × β) :=
  let slice := rows.take k
  slice ++ (rows.drop k).filter fun row => slice.getLast?.any fun last => row.2 == last.2

namespace View

open SortKey

variable {clock : Clock} {ts : List (List (Option Int64))} {k : Nat}

theorem sliceWithTies_eq_take {rows : List (Record × List (Option Int64))}
    (h : ((rows.map Prod.snd).drop k).Pairwise fun x y =>
      isLast ((rows.map Prod.snd).take k) y = true → isLast ((rows.map Prod.snd).take k) x = true) :
    sliceWithTies k rows = rows.take (k + (((rows.map Prod.snd).drop k).takeWhile
      (isLast ((rows.map Prod.snd).take k))).length) := by
  have test : (fun row : Record × List (Option Int64) => (rows.take k).getLast?.any
      fun last => row.2 == last.2) = fun row => isLast ((rows.map Prod.snd).take k) row.2 := by
    funext row
    rw [isLast, ← List.map_take, List.getLast?_map, Option.any_map]
  rw [← List.map_drop, List.pairwise_map] at h
  rw [sliceWithTies, test, ← takeWhile_eq_filter h, take_append_takeWhile, ← List.map_drop,
    List.takeWhile_map, List.length_map]
  rfl

/-! ## Slices of views -/

variable {v w x : View} {env : Env} {orders : List KeyOrder} {values : List (List Value)}
  {tuples : List (List (Option Int64))} {keys : List (List SortKey)} {s t : Scope}

theorem take_records (v : View) (count : Nat) (ties : Bool) : (v.take count ties).records =
    v.records.take (if ties then v.sortKeys.elim count fun keys => extendByTies keys count
      else count) := by
  unfold take
  generalize (if ties then v.sortKeys.elim count fun keys => extendByTies keys count
    else count) = n
  dsimp only
  split
  · rfl
  · rw [List.take_of_length_le (by omega)]

/-- The records stand in order, with the sort keys of the values beside them. -/
structure Keyed (v : View) (clock : Clock) (orders : List KeyOrder) (values : List (List Value)) :
    Prop where
  sortKeys : v.sortKeys = some (values.map (ofValues clock))
  length : values.length = v.records.length
  width : ∃ width, ∀ vs ∈ values, vs.length = width
  sorted : ∃ keys, values.map (ofValues clock) = stableSort (tupleLess orders) keys

theorem sortBy_keyed (v : View) (clock : Clock) (orders : List KeyOrder) (indices : List Nat) :
    (v.sortBy clock orders indices).Keyed clock orders
      ((v.sortBy clock orders indices).records.map fun r => indices.map r.value) where
  sortKeys := by rw [sortBy_sortKeys, List.map_map]; rfl
  length := List.length_map _
  width := ⟨indices.length, fun vs h => by
    obtain ⟨r, -, rfl⟩ := List.mem_map.mp h
    exact List.length_map _⟩
  sorted := ⟨_, by rw [List.map_map]; exact sortBy_tuples v clock orders indices⟩

/-- Keys that are integers or NULL are of one width and sorted. -/
theorem Keyed.integral (h : v.Keyed clock orders (tuples.map (List.map Value.ofInteger?))) :
    (∃ width, ∀ t ∈ tuples, t.length = width) ∧
      v.sortKeys = some (tuples.map (ofIntegers clock)) ∧
      (tuples.map (ofIntegers clock)).Pairwise (InOrder (tupleLess orders)) := by
  have encoded : (tuples.map (List.map Value.ofInteger?)).map (ofValues clock) =
      tuples.map (ofIntegers clock) := List.map_map
  obtain ⟨width, wide⟩ := h.width
  replace wide : ∀ t ∈ tuples, t.length = width := fun t ht => by
    rw [← wide _ (List.mem_map_of_mem ht), List.length_map]
  obtain ⟨keys, sorted⟩ := h.sorted
  rw [encoded] at sorted
  have integral : ∀ key ∈ keys, IntegralTuple width key := fun key hkey => by
    rw [← (stableSort_perm _ keys).mem_iff, ← sorted] at hkey
    obtain ⟨t, ht, rfl⟩ := List.mem_map.mp hkey
    exact wide t ht ▸ ofIntegers_integral clock t
  refine ⟨⟨width, wide⟩, by rw [h.sortKeys, encoded], sorted ▸ ?_⟩
  exact stableSort_pairwise (tupleLess_asymmetric orders)
    (tupleLess_transitiveOn_integral orders width) integral

theorem drop_sortKeys (h : v.sortKeys = some keys) (length : keys.length = v.records.length)
    (n : Nat) : (v.drop n).sortKeys = some (keys.drop n) := by
  show v.sortKeys.map _ = _
  rw [h]
  exact congrArg some (List.drop_eq_drop_iff.mpr (by omega))

/-- Sorting leaves records alone that are sorted. -/
theorem sortBy_records_of_pairwise {indices : List Nat}
    (sorted : (v.records.map (keyTuple clock indices)).Pairwise (InOrder (tupleLess orders))) :
    (v.sortBy clock orders indices).records = v.records := by
  have keyed : (v.records.map fun r => (keyTuple clock indices r, r)).Pairwise
      (InOrder fun a b => tupleLess orders a.1 b.1) := by
    rw [List.pairwise_map] at sorted ⊢
    exact sorted
  have unmoved := congrArg (List.map Prod.snd) (stableSort_of_pairwise keyed)
  rwa [List.map_map, show Prod.snd ∘ (fun r => (keyTuple clock indices r, r)) = id from rfl,
    List.map_id] at unmoved

/-- A slice with ties keeps as many records as stand with their tuples in a slice of these pairs. -/
theorem Keyed.take_ties (h : v.Keyed clock orders (tuples.map (List.map Value.ofInteger?)))
    (positive : 0 < k) (n : Nat) :
    ∃ count, ((v.drop n).take k true).records = (v.records.drop n).take count ∧
      ∀ rs : List Record, rs.length = v.records.length →
        (sliceWithTies k ((rs.zip tuples).drop n)).map Prod.fst = (rs.drop n).take count := by
  have length : tuples.length = v.records.length := by rw [← h.length, List.length_map]
  obtain ⟨⟨width, wide⟩, keys, sorted⟩ := h.integral
  have front := pairwise_isLast positive
    (List.map_drop ▸ sorted.sublist (List.drop_sublist n _) :
      ((tuples.drop n).map (ofIntegers clock)).Pairwise _)
    fun t ht => wide t (List.mem_of_mem_drop ht)
  refine ⟨_, take_records _ _ _, fun rs same => ?_⟩
  have tuple : ((rs.zip tuples).drop n).map Prod.snd = tuples.drop n := by
    rw [List.map_drop, List.map_snd_zip (by omega)]
  have record : ((rs.zip tuples).drop n).map Prod.fst = rs.drop n := by
    rw [List.map_drop, List.map_fst_zip (by omega)]
  rw [if_pos rfl, drop_sortKeys keys (by rw [List.length_map, length]), Option.elim_some,
    ← List.map_drop, extendByTies_ofIntegers positive, sliceWithTies_eq_take (tuple ▸ front), tuple,
    List.map_take, record]

/-! ## Clauses -/

/-- What is shown of a record at the end. -/
def shown (v : View) (r : Record) : Record :=
  match v.selected with
  | some indices => (r.project indices).collapse
  | none => r.collapse

theorem fix_records (v : View) : v.fix.records = v.records.map v.shown := by
  unfold fix shown
  cases v.selected <;> rfl

/-- Views with the same columns are alike at the end but for their records. -/
theorem fix_eq_of_columns (header : w.header = v.header) (selected : w.selected = v.selected) :
    w.fix = { v.fix with records := w.records.map v.shown } := by
  unfold fix shown
  rw [header, selected]
  cases v.selected <;> rfl

theorem finish_eq (v : View) (keys : List OrderKey) (offset : Option Operand)
    (limit : Option LimitClause) (env : Env) : v.finish keys offset limit env = do
      let v ← v.sorted keys env
      let v ← v.clause offset fun o => v.offset o env
      let v ← v.clause limit fun c => v.limit c env
      return v.fix := by
  unfold finish sorted
  split
  · rw [pure_bind]
  · rfl

theorem exec_finish_plain {keys : List OrderKey}
    (h : exec (v.finish keys none none env) s = (.ok w, t)) :
    ∃ x, exec (v.sorted keys env) s = (.ok x, t) ∧ w = x.fix := by
  rw [finish_eq] at h
  obtain ⟨x, u, hx, h⟩ := exec_bind_eq_ok h
  cases h
  exact ⟨x, hx, rfl⟩

end View

/-- Wherever it is evaluated, the expression is an integer and nothing else happens. -/
def Expr.IsInteger (e : Expr) (i : Int64) : Prop :=
  ∀ env s, ∃ x, exec (e.eval env) s = (.ok x, s) ∧ x.toInteger? = some i

theorem isInteger_literal (i : Int64) : (Expr.literal (.integer i)).IsInteger i := by
  intro env s
  rw [Expr.eval]
  exact ⟨.integer i, rfl, rfl⟩

/-- The query has sort keys, and `values` are their values in its rows before any are cut. -/
inductive Query.KeyValues (env : Env) (s : Scope) : Query → List (List Value) → Prop
  | sorted {recursive : Bool} {tables : List InlineDef} {body : Body} {order : List OrderItem}
    {offset : Option Expr} {limit : Limit} {after : Env} {v w : View} {indices : List Nat}
    {t u x : Scope}
    (tablesRun : exec (inlineTables tables recursive env) s = (.ok after, t))
    (bodyRun : exec (body.run after) t = (.ok v, u)) (nonempty : order ≠ [])
    (keysRun : Stage.exec ((orderKeys order).mapM fun key => key.resolve after) v u =
      ((.ok indices, w), x)) :
    KeyValues env s (.mk recursive tables body order offset limit)
      ((w.sortBy after.clock (keyOrders ((orderKeys order).map OrderKey.toSortOperand))
        indices).records.map fun r => indices.map r.value)

section

variable {env after : Env} {r s t u : Scope} {v w x : View} {recursive : Bool}
  {tables : List InlineDef} {body : Body} {order : List OrderItem} {offset limit : Expr}
  {o k : Int64}

theorem exec_finish_sliced {keys : List OrderKey} (offsetValue : offset.IsInteger o)
    (limitValue : limit.IsInteger k) (ties : Bool)
    (sorted : exec (v.sorted keys env) s = (.ok x, t)) :
    exec (v.finish keys (optionOperand (some offset)) (Limit.rows limit false ties).clause? env) s =
      (.ok ((x.drop o.toInt.toNat).take k.toInt.toNat ties).fix, t) := by
  obtain ⟨first, firstRun, firstInteger⟩ := offsetValue env t
  obtain ⟨second, secondRun, secondInteger⟩ := limitValue env t
  have dropped : exec (x.offset ⟨offset, fun env => offset.eval env⟩ env) t =
      (.ok (x.drop o.toInt.toNat), t) := by
    rw [View.offset, exec_bind_ok firstRun, firstInteger]
    rfl
  have taken (y : View) : exec (y.limit ⟨⟨limit, fun env => limit.eval env⟩, false, ties⟩ env) t =
      (.ok (y.take k.toInt.toNat ties), t) := by
    rw [View.limit, exec_bind_ok secondRun, secondInteger]
    rfl
  rw [View.finish_eq]
  exact (exec_bind_ok sorted _).trans ((exec_bind_ok dropped _).trans (exec_bind_ok (taken _) _))

theorem isEmpty_orderKeys (nonempty : order ≠ []) : (orderKeys order).isEmpty = false := by
  cases order with
  | nil => exact absurd rfl nonempty
  | cons item order => cases item; rfl

theorem exec_sorted_iff {keys : List OrderKey} (nonempty : keys.isEmpty = false) :
    exec (v.sorted keys env) s = (.ok x, t) ↔ ∃ indices w,
      Stage.exec (keys.mapM fun key => key.resolve env) v s = ((.ok indices, w), t) ∧
        x = w.sortBy env.clock (keyOrders (keys.map OrderKey.toSortOperand)) indices := by
  rw [View.sorted, if_neg (by simp [nonempty])]
  constructor
  · intro h
    obtain ⟨indices, w, u, run, h⟩ := Stage.exec_bind_eq_ok (Stage.exec_runOn_eq_ok h)
    cases h
    exact ⟨indices, w, run, rfl⟩
  · rintro ⟨indices, w, run, rfl⟩
    rw [Stage.exec_runOn, orderBy, Stage.exec_bind_ok run]
    rfl

/-- The sorted view of a query has the values of the sort keys beside its records. -/
theorem Query.KeyValues.keyed {early : Option Expr} {count : Limit} {values : List (List Value)}
    (h : (Query.mk recursive tables body order early count).KeyValues env s values)
    (tablesRun : exec (inlineTables tables recursive env) s = (.ok after, t))
    (bodyRun : exec (body.run after) t = (.ok v, u))
    (sorted : exec (v.sorted (orderKeys order) after) u = (.ok x, r)) :
    x.Keyed after.clock (keyOrders ((orderKeys order).map OrderKey.toSortOperand)) values := by
  cases h with
  | sorted tablesRun' bodyRun' nonempty keysRun' =>
    cases tablesRun.symm.trans tablesRun'
    cases bodyRun.symm.trans bodyRun'
    obtain ⟨indices, w, keysRun, rfl⟩ := (exec_sorted_iff (isEmpty_orderKeys nonempty)).mp sorted
    cases keysRun.symm.trans keysRun'
    exact View.sortBy_keyed _ _ _ _

/-- Behind the text of a query that has neither, an offset and a limit may stand in either order. They
are read as clauses of the same query, and it then gives the slice of its rows that they say, counts
below zero being zero. With ties, a limit of at least one row also keeps all later rows that have the
key values of the last row of the slice, if all key values are integers or NULL. -/
theorem offset_and_limit_cut_slices {qs os ks : List Lexeme}
    (query : TakesWhole Grammar.query qs (.mk recursive tables body order none .all))
    (offsetTaken : TakesWhole Grammar.expression os offset)
    (limitTaken : TakesWhole Grammar.expression ks limit)
    (offsetValue : offset.IsInteger o) (limitValue : limit.IsInteger k) :
    let q : Query := .mk recursive tables body order none .all
    let sliced (ties : Bool) : Query :=
      .mk recursive tables body order (some offset) (.rows limit false ties)
    (∀ text p, lexemes text = .ok (qs ++ [⟨.ending, p⟩]) → parseQuery text = .ok q) ∧
    (∀ text cs ties p, SliceClauses os ks ties cs →
      lexemes text = .ok (qs ++ cs ++ [⟨.ending, p⟩]) → parseQuery text = .ok (sliced ties)) ∧
    ∀ env s v t, exec (q.run env) s = (.ok v, t) →
      exec ((sliced false).run env) s =
        (.ok { v with records := (v.records.drop o.toInt.toNat).take k.toInt.toNat }, t) ∧
      (order ≠ [] → ∃ values, q.KeyValues env s values ∧ values.length = v.records.length) ∧
      ∀ tuples, q.KeyValues env s (tuples.map (List.map Value.ofInteger?)) → 0 < k →
        exec ((sliced true).run env) s =
          (.ok { v with records := (sliceWithTies k.toInt.toNat
            ((v.records.zip tuples).drop o.toInt.toNat)).map Prod.fst }, t) := by
  intro q sliced
  refine ⟨fun text p lexed => parseQuery_uncut query lexed, fun text cs ties p clauses lexed =>
    parseQuery_sliced query offsetTaken limitTaken clauses lexed, fun env s v t run => ?_⟩
  rw [Query.run] at run
  obtain ⟨after, t₁, tablesRun, run⟩ := exec_bind_eq_ok run
  obtain ⟨b, t₂, bodyRun, run⟩ := exec_bind_eq_ok run
  obtain ⟨x, sorted, rfl⟩ := View.exec_finish_plain run
  have cut (ties : Bool) : exec ((sliced ties).run env) s =
      (.ok { x.fix with
        records := ((x.drop o.toInt.toNat).take k.toInt.toNat ties).records.map x.shown }, t) := by
    have columns : ((x.drop o.toInt.toNat).take k.toInt.toNat ties).header = x.header ∧
        ((x.drop o.toInt.toNat).take k.toInt.toNat ties).selected = x.selected :=
      View.take_header _ _ _
    rw [Query.run, exec_bind_ok tablesRun, exec_bind_ok bodyRun,
      exec_finish_sliced offsetValue limitValue ties sorted,
      View.fix_eq_of_columns columns.1 columns.2]
  refine ⟨?_, fun nonempty => ?_, fun tuples keys positive => ?_⟩
  · rw [cut, View.take_records, x.fix_records, ← List.map_drop, ← List.map_take]
    rfl
  · obtain ⟨indices, w, keysRun, rfl⟩ := (exec_sorted_iff (isEmpty_orderKeys nonempty)).mp sorted
    refine ⟨_, .sorted tablesRun bodyRun nonempty keysRun, ?_⟩
    rw [View.fix_records, List.length_map, List.length_map]
  · have below : (0 : Int64).toInt < k.toInt := Int64.lt_iff_toInt_lt.mp positive
    rw [Int64.toInt_zero] at below
    have enough : 0 < k.toInt.toNat := by omega
    obtain ⟨count, records, others⟩ :=
      (keys.keyed tablesRun bodyRun sorted).take_ties enough o.toInt.toNat
    rw [cut, records, List.map_take, List.map_drop, ← x.fix_records, others]
    rw [x.fix_records, List.length_map]

end

/-- A limit with ties in front of an offset. -/
def tiedText : String :=
  "select n from (values (null), (1), (1)) v (n) order by n limit 1 with ties offset 1"

def tiedLexemes : List Lexeme :=
  [⟨.keyword .select, 0⟩, ⟨.identifier "n", 7⟩, ⟨.keyword .from, 9⟩, ⟨.symbol .leftParen, 14⟩,
    ⟨.keyword .values, 15⟩, ⟨.symbol .leftParen, 22⟩, ⟨.keyword .null, 23⟩, ⟨.symbol .rightParen, 27⟩,
    ⟨.symbol .comma, 28⟩, ⟨.symbol .leftParen, 30⟩, ⟨.integer 1, 31⟩, ⟨.symbol .rightParen, 32⟩,
    ⟨.symbol .comma, 33⟩, ⟨.symbol .leftParen, 35⟩, ⟨.integer 1, 36⟩, ⟨.symbol .rightParen, 37⟩,
    ⟨.symbol .rightParen, 38⟩, ⟨.identifier "v", 40⟩, ⟨.symbol .leftParen, 42⟩, ⟨.identifier "n", 43⟩,
    ⟨.symbol .rightParen, 44⟩, ⟨.keyword .order, 46⟩, ⟨.keyword .by, 52⟩, ⟨.identifier "n", 55⟩]

def tiedBody : Body :=
  .select false [.mk (.column none "n") none]
    [.values [[.literal .null], [.literal (.integer 1)], [.literal (.integer 1)]] (some "v") ["n"]]
    none [] none

def tiedOrder : List OrderItem :=
  [.mk (.column none "n") none none]

def tiedView : View :=
  { View.ofRows (.ofNames "v" ["n"]) [[.null], [.integer 1], [.integer 1]] with selected := some [0] }

/-- Behind the NULL there is a 1, and the other 1 ties with it. -/
theorem offset_and_limit_cut_slices_tied :
    let one : Expr := .literal (.integer 1)
    let q : Query := .mk false [] tiedBody tiedOrder (some one) (.rows one false true)
    parseQuery tiedText = .ok q ∧
      ∃ v, exec (q.run {}) {} = (.ok v, {}) ∧ v.rows = [[.integer 1], [.integer 1]] := by
  intro one q
  let orders := keyOrders ((orderKeys tiedOrder).map OrderKey.toSortOperand)
  let tuples : List (List (Option Int64)) := [[none], [some 1], [some 1]]
  have lexed : (lexemes tiedText).toOption = some (tiedLexemes ++
      [⟨.keyword .limit, 57⟩, ⟨.integer 1, 63⟩, ⟨.keyword .with, 65⟩, ⟨.identifier "ties", 70⟩,
        ⟨.keyword .offset, 75⟩, ⟨.integer 1, 82⟩] ++ [⟨.ending, 83⟩]) := by decide +kernel
  have unmoved : (tiedView.sortBy {} orders [0]).records = tiedView.records :=
    View.sortBy_records_of_pairwise (by unfold InOrder; decide +kernel)
  have bodyRun : exec (tiedBody.run {}) {} = (.ok tiedView, {}) := rfl
  have keysRun : Stage.exec ((orderKeys tiedOrder).mapM fun key => key.resolve {}) tiedView {} =
      ((.ok [0], tiedView), {}) := rfl
  have values : tuples.map (List.map Value.ofInteger?) =
      (tiedView.sortBy {} orders [0]).records.map fun r => [0].map r.value := by
    rw [unmoved]
    rfl
  have keys : (Query.mk false [] tiedBody tiedOrder none .all).KeyValues {} {}
      (tuples.map (List.map Value.ofInteger?)) := by
    rw [values]
    exact .sorted rfl bodyRun (List.cons_ne_nil _ _) keysRun
  have plain : exec ((Query.mk false [] tiedBody tiedOrder none .all).run {}) {} =
      (.ok (tiedView.sortBy {} orders [0]).fix, {}) := by
    have sorted : exec (tiedView.sorted (orderKeys tiedOrder) {}) {} =
        (.ok (tiedView.sortBy {} orders [0]), {}) :=
      (exec_sorted_iff rfl).mpr ⟨[0], tiedView, keysRun, rfl⟩
    have tables : exec (inlineTables [] false {}) {} = (.ok {}, {}) := rfl
    rw [Query.run, exec_bind_ok tables, exec_bind_ok bodyRun, View.finish_eq]
    exact exec_bind_ok sorted _
  have query : TakesWhole Grammar.query tiedLexemes (.mk false [] tiedBody tiedOrder none .all) :=
    ⟨57, rfl⟩
  have offsetTaken : TakesWhole Grammar.expression [⟨.integer 1, 82⟩] one := ⟨83, rfl⟩
  have limitTaken : TakesWhole Grammar.expression [⟨.integer 1, 63⟩] one := ⟨65, rfl⟩
  obtain ⟨-, read, runs⟩ := offset_and_limit_cut_slices query offsetTaken limitTaken
    (isInteger_literal 1) (isInteger_literal 1)
  have parsed := read tiedText _ true 83 (.limitFirst 75 57 (.with 65 (by decide)))
    (toOption_eq_some lexed)
  obtain ⟨-, -, tied⟩ := runs {} {} _ {} plain
  refine ⟨parsed, _, tied tuples keys (by decide), ?_⟩
  show List.map Record.values _ = _
  rw [View.fix_records, unmoved]
  rfl

end TableQuery
