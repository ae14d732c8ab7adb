import TableQuery.Evaluation.Meaning
import TableQuery.Proofs.Evaluation.Growth
import TableQuery.Proofs.Evaluation.Results
import TableQuery.Proofs.Function.PeerRuns
import TableQuery.Proofs.Function.Tiles

/-!
# The values of a partition

A window function or an aggregate gives one value to each member of a partition, since its arguments
are counted before: without its first argument it had nothing to evaluate. The values of the rank
functions follow the runs of peers, and so do those of aggregates of a sorted window, which see the
members up to the end of a run.
-/

namespace TableQuery

open Eval

variable {env : Env} {s t : Scope} {name : String} {args : List Operand} {call : WindowCall}
  {p : Partition} {reduce : FrameReducer} {vs values : List Value}

/-! ## Names -/

theorem Aggregate.upper_of_ofName? {f : Aggregate} (hf : Aggregate.ofName? name = some f) :
    Text.upper name = f.name := by
  have found := List.find?_some (show every.find? (fun g => g.name == Text.upper name) = _ from hf)
  exact (eq_of_beq found).symm

/-- An aggregate is no window function. -/
theorem WindowFunction.ofName?_of_aggregate {f : Aggregate}
    (hf : Aggregate.ofName? name = some f) : WindowFunction.ofName? name = none := by
  rw [WindowFunction.ofName?, Aggregate.upper_of_ofName? hf]
  cases f <;> rfl

theorem WindowCall.kind_of_aggregate (call : WindowCall) {f : Aggregate}
    (hf : Aggregate.ofName? call.name = some f) (one : call.args.length = 1) (env : Env) (s : Scope) :
    exec (call.kind env) s = (.ok (.aggregate fun vs => .ok (f.eval env.clock vs)), s) := by
  unfold WindowCall.kind frameReducer
  rw [WindowFunction.ofName?_of_aggregate hf, hf, one]
  rfl

/-! ## Arguments -/

theorem least_le_of_checkArity {arity : Arity} {n : Nat} {u : Unit}
    (h : exec (liftM (checkArity name arity n) : Eval Unit) s = (.ok u, t)) : arity.least ≤ n := by
  have checked : checkArity name arity n = .ok u := congrArg Prod.fst h
  rw [checkArity] at checked
  split at checked
  · rename_i accepted
    rw [Arity.accepts, Bool.and_eq_true] at accepted
    exact of_decide_eq_true accepted.1
  · cases checked

/-- An aggregate has an argument whose values it reduces. -/
theorem args_ne_nil_of_frameReducer
    (h : exec (frameReducer name args env) s = (.ok reduce, t)) : args ≠ [] := by
  refine List.ne_nil_of_length_pos ?_
  unfold frameReducer at h
  split at h
  · obtain ⟨_, _, checked, -⟩ := exec_bind_eq_ok h
    exact least_le_of_checkArity checked
  · dsimp only at h
    split at h
    · obtain ⟨_, _, checked, -⟩ := exec_bind_eq_ok h
      exact least_le_of_checkArity checked
    · obtain ⟨_, _, -, h⟩ := exec_bind_eq_ok h
      split at h
      · obtain ⟨_, _, checked, -⟩ := exec_bind_eq_ok h
        exact least_le_of_checkArity checked
      · cases h

theorem args_ne_nil_of_aggregate
    (h : exec (call.kind env) s = (.ok (.aggregate reduce), t)) : call.args ≠ [] := by
  unfold WindowCall.kind at h
  split at h
  · obtain ⟨_, _, -, h⟩ := exec_bind_eq_ok h
    cases h
  · obtain ⟨_, _, reducer, h⟩ := exec_bind_eq_ok h
    cases h
    exact args_ne_nil_of_frameReducer reducer

theorem least_le_of_function {f : WindowFunction}
    (h : exec (call.kind env) s = (.ok (.function f), t)) : f.arity.least ≤ call.args.length := by
  unfold WindowCall.kind at h
  split at h
  · obtain ⟨_, _, checked, h⟩ := exec_bind_eq_ok h
    cases h
    exact least_le_of_checkArity checked
  · obtain ⟨_, _, -, h⟩ := exec_bind_eq_ok h
    cases h

/-! ## Aggregates -/

/-- A frame holds a value for each member. -/
theorem length_of_evalFrameValues (inhabited : args ≠ [])
    (h : exec (evalFrameValues name args env p) s = (.ok vs, t)) :
    vs.length = p.members.length := by
  obtain ⟨o, args, rfl⟩ := List.exists_cons_of_ne_nil inhabited
  unfold evalFrameValues at h
  dsimp only at h
  split at h
  · split at h
    · cases h
      exact List.length_map _
    · cases h
  · cases h
  · exact length_of_exec_mapM h

theorem forall₂_range_iff {α : Type} {n : Nat} {holds : Nat → α → Prop} {xs : List α} :
    List.Forall₂ holds (List.range n) xs ↔
      xs.length = n ∧ ∀ i < n, ∃ x, xs[i]? = some x ∧ holds i x := by
  rw [List.forall₂_iff_get]
  constructor
  · rintro ⟨length, each⟩
    rw [List.length_range] at length
    refine ⟨length.symm, fun i inside => ?_⟩
    have found := each i (by simpa using inside) (by omega)
    rw [List.get_eq_getElem, List.getElem_range] at found
    exact ⟨_, List.getElem?_eq_getElem _, found⟩
  · rintro ⟨length, each⟩
    refine ⟨by simp [length], fun i inside hi => ?_⟩
    obtain ⟨x, hx, found⟩ := each i (by simpa using inside)
    rw [List.getElem?_eq_getElem hi] at hx
    cases hx
    simpa using found

/-- In a sorted window each member has the reduction of the values up to its last peer. -/
theorem exec_aggregateRoutine_sorted (sorted : call.order ≠ []) :
    exec (aggregateRoutine call env reduce p) s = (.ok values, t) ↔
      ∃ vs, exec (evalFrameValues call.name call.args env p) s = (.ok vs, t) ∧
        values.length = vs.length ∧ ∀ i < vs.length, ∃ x, values[i]? = some x ∧
          reduce (distinctIf env.clock call.distinct (vs.take (lastPeer p.flags i + 1))) = .ok x := by
  have nonempty : ¬ call.order.isEmpty = true := by simpa using sorted
  unfold aggregateRoutine
  simp only [← forall₂_range_iff, ← mapM_eq_ok_iff]
  constructor
  · intro h
    obtain ⟨vs, u, hvs, h⟩ := exec_bind_eq_ok h
    rw [if_neg nonempty, exec_mapM_lift] at h
    cases congrArg Prod.snd h
    exact ⟨vs, hvs, congrArg Prod.fst h⟩
  · rintro ⟨vs, hvs, each⟩
    refine (exec_bind_ok hvs _).trans ?_
    rw [if_neg nonempty, exec_mapM_lift, each]

/-- Without an order all members have the reduction of all values. -/
theorem exec_aggregateRoutine_unsorted (unsorted : call.order = []) {x : Value}
    (hvs : exec (evalFrameValues call.name call.args env p) s = (.ok vs, t))
    (hx : reduce (distinctIf env.clock call.distinct vs) = .ok x) :
    exec (aggregateRoutine call env reduce p) s = (.ok (vs.map fun _ => x), t) := by
  have empty : call.order.isEmpty = true := by rw [unsorted]; rfl
  unfold aggregateRoutine
  refine (exec_bind_ok hvs _).trans ?_
  dsimp only
  rw [if_pos empty, List.take_length, hx]
  rfl

/-! ## One value for each member -/

theorem length_ranksFrom (index rank : Nat) (flags : List Bool) :
    (ranksFrom index rank flags).length = flags.length := by
  induction flags generalizing index rank with
  | nil => rfl
  | cons peer flags ih => rw [ranksFrom, List.length_cons, List.length_cons, ih]

theorem length_denseRanksFrom (rank : Nat) (flags : List Bool) :
    (denseRanksFrom rank flags).length = flags.length := by
  induction flags generalizing rank with
  | nil => rfl
  | cons peer flags ih => rw [denseRanksFrom, List.length_cons, List.length_cons, ih]

theorem length_tileNumbers (tiles members : Nat) : (tileNumbers tiles members).length = members := by
  obtain ⟨perTile, remainder, -, same⟩ := exists_tileNumbers_eq tiles members
  rw [same, length_tilesFrom]

theorem length_of_evalNeighbours {neighbours : Int64 → Value → List Value → List Value}
    (each : ∀ offset default vs, (neighbours offset default vs).length = vs.length)
    (inhabited : args ≠ []) (h : exec (evalNeighbours name args env p neighbours) s = (.ok vs, t)) :
    vs.length = p.members.length := by
  obtain ⟨o, args, rfl⟩ := List.exists_cons_of_ne_nil inhabited
  unfold evalNeighbours at h
  obtain ⟨_, _, -, h⟩ := exec_bind_eq_ok h
  obtain ⟨_, _, -, h⟩ := exec_bind_eq_ok h
  obtain ⟨_, _, hvs, h⟩ := exec_bind_eq_ok h
  cases h
  exact (each _ _ _).trans (length_of_exec_mapM hvs)

theorem length_of_function {f : WindowFunction} (flags : p.flags.length = p.members.length)
    (enough : f.arity.least ≤ args.length)
    (h : exec (f.routine name args env p) s = (.ok vs, t)) : vs.length = p.members.length := by
  have inhabited : 1 ≤ f.arity.least → args ≠ [] := fun positive =>
    List.ne_nil_of_length_pos (positive.trans enough)
  unfold WindowFunction.routine at h
  cases f with
  | rowNumber => cases h; simp
  | rank => cases h; simp [ranks, length_ranksFrom, flags]
  | denseRank => cases h; simp [denseRanks, length_denseRanksFrom, flags]
  | cumeDist => cases h; simp [cumulativeShares, flags]
  | percentRank => cases h; simp [rankShares, ranks, length_ranksFrom, flags]
  | lag => exact length_of_evalNeighbours (by simp [lagValues]) (inhabited (Nat.le_refl 1)) h
  | lead => exact length_of_evalNeighbours (by simp [leadValues]) (inhabited (Nat.le_refl 1)) h
  | ntile =>
    obtain ⟨o, args, rfl⟩ := List.exists_cons_of_ne_nil (inhabited (Nat.le_refl 1))
    obtain ⟨_, _, -, h⟩ := exec_bind_eq_ok h
    cases h
    rw [List.length_map, length_tileNumbers]
  | firstValue | lastValue =>
    obtain ⟨o, args, rfl⟩ := List.exists_cons_of_ne_nil (inhabited (Nat.le_refl 1))
    obtain ⟨_, _, hvs, h⟩ := exec_bind_eq_ok h
    cases h
    rw [List.length_map]
    exact length_of_exec_mapM hvs

theorem length_of_aggregateRoutine (inhabited : call.args ≠ [])
    (h : exec (aggregateRoutine call env reduce p) s = (.ok values, t)) :
    values.length = p.members.length := by
  by_cases unsorted : call.order = []
  · unfold aggregateRoutine at h
    obtain ⟨vs, _, hvs, h⟩ := exec_bind_eq_ok h
    rw [unsorted, if_pos List.isEmpty_nil] at h
    obtain ⟨_, _, -, h⟩ := exec_bind_eq_ok h
    cases h
    rw [List.length_map]
    exact length_of_evalFrameValues inhabited hvs
  · obtain ⟨vs, hvs, count, -⟩ := (exec_aggregateRoutine_sorted unsorted).mp h
    exact count.trans (length_of_evalFrameValues inhabited hvs)

/-- Whatever a window call computes, it gives each member of a partition one value. -/
theorem WindowCall.length_of_routine {kind : WindowKind} {s₀ t₀ : Scope}
    (hkind : exec (call.kind env) s₀ = (.ok kind, t₀))
    (flags : p.flags.length = p.members.length)
    (h : exec (call.routine env kind p) s = (.ok values, t)) :
    values.length = p.members.length := by
  cases kind with
  | function f => exact length_of_function flags (least_le_of_function hkind) h
  | aggregate reduce => exact length_of_aggregateRoutine (args_ne_nil_of_aggregate hkind) h

/-! ## Runs of peers -/

variable {keys : List (List SortKey)}

/-- What depends on the last peer alone is the same for all members of a run. -/
theorem each_lastPeer_iff (f : Nat → Except QueryError Value) :
    (∀ i < keys.length, ∃ x, values[i]? = some x ∧ f (lastPeer (peers keys) i + 1) = .ok x) ↔
      ∀ ordinal start stop, IsPeerRun keys ordinal start stop →
        ∃ x, f stop = .ok x ∧ ∀ i, start ≤ i → i < stop → values[i]? = some x := by
  constructor
  · intro each ordinal start stop run
    have inside := run.stop_le_length
    have nonempty := run.start_lt_stop
    obtain ⟨x, -, hx⟩ := each start (by omega)
    rw [(run.scans (Nat.le_refl _) nonempty).2.2] at hx
    refine ⟨x, hx, fun i first last => ?_⟩
    obtain ⟨y, value, hy⟩ := each i (by omega)
    rw [(run.scans first last).2.2, hx] at hy
    cases hy
    exact value
  · intro runs i inside
    obtain ⟨ordinal, start, stop, run, first, last⟩ := exists_isPeerRun inside
    obtain ⟨x, hx, value⟩ := runs ordinal start stop run
    exact ⟨x, value i first last, by rw [(run.scans first last).2.2, hx]⟩

/-- Ranks and running frames follow the runs of peers: the longest blocks of members with keys that
tie with those of the member before. `ROW_NUMBER` counts the members, `RANK` tells where a run
begins, `DENSE_RANK` counts the runs and the last peer tells where a run ends. An aggregate of a
sorted window gives all members of a run the reduction of the values up to its end, and those of the
last run the value that the aggregate has without an order. -/
theorem ranks_and_frames_follow_runs {p : Partition} (members : p.members.length = keys.length)
    (flags : p.flags = peers keys) :
    (peerRuns keys).flatten = keys ∧ [] ∉ peerRuns keys ∧
    (∀ run ∈ peerRuns keys, run.IsChain fun last key => SortKey.tupleTies key last = true) ∧
    ((peerRuns keys).IsChain fun run next => ∃ inhabited inhabited',
      SortKey.tupleTies (next.head inhabited') (run.getLast inhabited) = false) ∧
    (∃ ordinals ranks denseRanks : List Nat,
      FollowsRuns keys ordinals ranks denseRanks (lastPeer p.flags) ∧
      ∀ name args env s,
        exec (WindowFunction.rowNumber.routine name args env p) s
          = (.ok (ordinals.map .ofNat), s) ∧
        exec (WindowFunction.rank.routine name args env p) s = (.ok (ranks.map .ofNat), s) ∧
        exec (WindowFunction.denseRank.routine name args env p) s
          = (.ok (denseRanks.map .ofNat), s)) ∧
    ∀ (call : WindowCall) (env : Env) (reduce : FrameReducer) (s₀ t₀ : Scope),
      call.order ≠ [] → exec (call.kind env) s₀ = (.ok (.aggregate reduce), t₀) →
      ∀ (s t : Scope) (values : List Value),
        exec (call.routine env (.aggregate reduce) p) s = (.ok values, t) ↔
          ∃ vs, exec (evalFrameValues call.name call.args env p) s = (.ok vs, t) ∧
            vs.length = keys.length ∧ values.length = keys.length ∧
            ∀ ordinal start stop, IsPeerRun keys ordinal start stop → ∃ x,
              reduce (distinctIf env.clock call.distinct (vs.take stop)) = .ok x ∧
              (∀ i, start ≤ i → i < stop → values[i]? = some x) ∧
              (stop = keys.length →
                exec (WindowCall.routine { call with order := [] } env (.aggregate reduce) p) s
                  = (.ok (vs.map fun _ => x), t)) := by
  obtain ⟨whole, inhabited, ties, apart⟩ := List.splitBy_eq_iff.mp (rfl : peerRuns keys = _)
  obtain ⟨bindings, _⟩ := p
  subst flags
  refine ⟨whole.symm, inhabited, ties, apart, ⟨_, _, _, peers_followsRuns keys, ?_⟩, ?_⟩
  · intro name args env s
    refine ⟨?_, rfl, rfl⟩
    rw [← members, List.map_map]
    rfl
  · intro call env reduce s₀ t₀ sorted kind s t values
    have hasArgument := args_ne_nil_of_aggregate kind
    refine (exec_aggregateRoutine_sorted sorted).trans (exists_congr fun vs => ?_)
    refine and_congr_right fun hvs => ?_
    have length := (length_of_evalFrameValues hasArgument hvs).trans members
    rw [length, each_lastPeer_iff fun stop =>
      reduce (distinctIf env.clock call.distinct (vs.take stop))]
    constructor
    · rintro ⟨count, runs⟩
      refine ⟨rfl, count, fun ordinal start stop run => ?_⟩
      obtain ⟨x, hx, value⟩ := runs ordinal start stop run
      refine ⟨x, hx, value, fun last => exec_aggregateRoutine_unsorted rfl hvs ?_⟩
      rwa [last, ← length, List.take_length] at hx
    · rintro ⟨-, count, runs⟩
      refine ⟨count, fun ordinal start stop run => ?_⟩
      obtain ⟨x, hx, value, -⟩ := runs ordinal start stop run
      exact ⟨x, hx, value⟩

/-- `SUM(x) OVER (ORDER BY k)` over the rows 1 and 5, 1 and 6, 2 and 7: the first two are peers, and
the last one has the sum of all. -/
theorem ranks_and_frames_follow_runs_summed :
    let member (k x : Int64) : Binding :=
      ⟨.ofNames "t" ["k", "x"], .ofValues [.integer k, .integer x], false⟩
    let keys := [1, 1, 2].map fun k => SortKey.ofValues {} [.integer k]
    let p : Partition := ⟨[member 1 5, member 1 6, member 2 7], peers keys⟩
    let item : OrderItem := .mk (.column none "k") none none
    let call : WindowCall :=
      { expr := .window "sum" false [.column none "x"] [] [item], name := "sum", distinct := false
        args := operands [.column none "x"], partition := [], order := sortOperands [item] }
    let sum : WindowKind := .aggregate fun vs => .ok (Aggregate.sum.eval {} vs)
    exec (call.routine {} sum p) {} = (.ok [.integer 11, .integer 11, .integer 18], {}) ∧
      exec (WindowCall.routine { call with order := [] } {} sum p) {}
        = (.ok [.integer 18, .integer 18, .integer 18], {}) ∧
      ∃ ranks : List Nat, exec (WindowFunction.rank.routine "rank" [] {} p) {}
        = (.ok (ranks.map .ofNat), {}) ∧ ranks[1]? = some 1 ∧ ranks[2]? = some 3 := by
  intro member keys p item call sum
  have first : IsPeerRun keys 1 0 2 := ⟨[], _, _, rfl, rfl, rfl, rfl⟩
  have second : IsPeerRun keys 2 2 3 := ⟨[_], _, [], rfl, rfl, rfl, rfl⟩
  have members : p.members.length = keys.length := rfl
  obtain ⟨-, -, -, -, ⟨_, ranks, _, scans, exec⟩, frames⟩ :=
    ranks_and_frames_follow_runs members rfl
  have sorted : call.order ≠ [] := List.cons_ne_nil _ _
  have sums : Eval.exec (call.routine {} sum p) {}
      = (.ok [.integer 11, .integer 11, .integer 18], {}) := rfl
  have named : Aggregate.ofName? call.name = some .sum := by
    dsimp only [call]
    rfl
  have kind : Eval.exec (call.kind {}) {} = (.ok sum, {}) :=
    call.kind_of_aggregate named rfl {} {}
  obtain ⟨vs, hvs, -, -, runs⟩ := (frames call {} _ {} {} sorted kind _ _ _).mp sums
  have frame : Eval.exec (evalFrameValues call.name call.args {} p) {}
      = (.ok [.integer 5, .integer 6, .integer 7], {}) := rfl
  obtain ⟨x, -, value, whole⟩ := runs 2 2 3 second
  have last : Value.integer 18 = x := Option.some.inj (value 2 (by decide) (by decide))
  have seen : [Value.integer 5, .integer 6, .integer 7] = vs :=
    Except.ok.inj (congrArg Prod.fst (frame.symm.trans hvs))
  subst last seen
  refine ⟨sums, whole rfl, ranks, (exec "rank" [] {} {}).2.1, ?_, ?_⟩
  · exact (scans.of_run first (by decide) (by decide)).2.1
  · exact (scans.of_run second (by decide) (by decide)).2.1

end TableQuery
