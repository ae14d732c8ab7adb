import Mathlib.Algebra.BigOperators.Group.List.Basic
import Mathlib.Algebra.Order.Ring.Nat
import Mathlib.Data.List.SplitBy
import TableQuery.Function.Window

/-!
# Runs of peers

The members of a sorted partition fall into runs, the longest blocks in which every member ties with
the one before it. Ranks and last peers are found by scans that count for themselves, and each of
them starts anew where a run does: a member's rank tells where its run begins, its dense rank which
run it is in, and its last peer where the run ends.
-/

namespace TableQuery

/-- The runs of peers of a partition with the given sort keys. -/
def peerRuns (keys : List (List SortKey)) : List (List (List SortKey)) :=
  keys.splitBy fun last key => SortKey.tupleTies key last

/-- The members from `start` up to, but not including, `stop` are the run with the given ordinal. -/
def IsPeerRun (keys : List (List SortKey)) (ordinal start stop : Nat) : Prop :=
  ∃ before run after, peerRuns keys = before ++ run :: after ∧ before.length + 1 = ordinal ∧
    before.flatten.length = start ∧ start + run.length = stop

/-- Each scan of a partition finds what its runs tell: `ordinals` counts the members, `ranks` tells
where runs begin, `denseRanks` numbers the runs, and `lastPeer` tells where they end. -/
structure FollowsRuns (keys : List (List SortKey)) (ordinals ranks denseRanks : List Nat)
    (lastPeer : Nat → Nat) : Prop where
  /-- Every member is in a run. -/
  covered : ∀ i < keys.length, ∃ ordinal start stop,
    IsPeerRun keys ordinal start stop ∧ start ≤ i ∧ i < stop
  of_run : ∀ {ordinal start stop i}, IsPeerRun keys ordinal start stop → start ≤ i → i < stop →
    ordinals[i]? = some (i + 1) ∧ ranks[i]? = some (start + 1) ∧
      denseRanks[i]? = some ordinal ∧ lastPeer i + 1 = stop
  ascending : ∀ i < keys.length, ∃ dense rank ordinal, denseRanks[i]? = some dense ∧
    ranks[i]? = some rank ∧ ordinals[i]? = some ordinal ∧
      dense ≤ rank ∧ rank ≤ ordinal ∧ ordinal ≤ lastPeer i + 1
  /-- Equal ranks are those of one run. -/
  same_iff : ∀ i < keys.length, ∀ j < keys.length,
    (ranks[i]? = ranks[j]? ↔ denseRanks[i]? = denseRanks[j]?) ∧
      (denseRanks[i]? = denseRanks[j]? ↔ ∃ ordinal start stop,
        IsPeerRun keys ordinal start stop ∧ (start ≤ i ∧ i < stop) ∧ start ≤ j ∧ j < stop)

variable {keys : List (List SortKey)} {ordinal start stop : Nat}

/-! ## Blocks of a list -/

section

variable {α : Type} {blocks before before' after after' : List (List α)} {block block' : List α}

/-- Every place of a list is in one of its blocks. -/
theorem exists_block {i : Nat} (h : i < blocks.flatten.length) : ∃ before block after,
    blocks = before ++ block :: after ∧ before.flatten.length ≤ i ∧
      i < before.flatten.length + block.length := by
  induction blocks generalizing i with
  | nil => simp at h
  | cons block blocks ih =>
    by_cases inside : i < block.length
    · exact ⟨[], block, blocks, rfl, Nat.zero_le i, by simpa using inside⟩
    · rw [List.flatten_cons, List.length_append] at h
      obtain ⟨before, next, after, rfl, first, last⟩ := ih (i := i - block.length) (by omega)
      refine ⟨block :: before, next, after, rfl, ?_, ?_⟩ <;>
        rw [List.flatten_cons, List.length_append] <;> omega

/-- Blocks stand behind the ends of those before them. -/
theorem flatten_le_of_length_lt (same : before ++ block :: after = before' ++ block' :: after')
    (shorter : before.length < before'.length) :
    before.flatten.length + block.length ≤ before'.flatten.length := by
  have first : before ++ [block] <+: before ++ block :: after := ⟨after, by simp⟩
  have second : before' <+: before ++ block :: after := ⟨block' :: after', same.symm⟩
  obtain ⟨rest, rfl⟩ : before ++ [block] <+: before' :=
    List.prefix_of_prefix_length_le first second (by simpa using Nat.succ_le_of_lt shorter)
  simp only [List.flatten_append, List.flatten_cons, List.flatten_nil, List.append_nil,
    List.length_append]
  omega

end

/-! ## Flags of runs -/

/-- The flags of the members of a run: the first of them is no peer of the one before it. -/
def runFlags (size : Nat) : List Bool :=
  false :: List.replicate (size - 1) true

theorem peersAfter_of_break {last : List SortKey} {keys : List (List SortKey)}
    (apart : ∀ key ∈ keys.head?, SortKey.tupleTies key last = false) :
    peersAfter last keys = peers keys := by
  cases keys with
  | nil => rfl
  | cons key keys => rw [peersAfter, apart key rfl, peers]

theorem peersAfter_append {first : List SortKey} {run keys : List (List SortKey)}
    (ties : (first :: run).IsChain fun last key => SortKey.tupleTies key last)
    (apart : ∀ key ∈ keys.head?, SortKey.tupleTies key ((first :: run).getLast (by simp)) = false) :
    peersAfter first (run ++ keys) = List.replicate run.length true ++ peers keys := by
  induction run generalizing first with
  | nil => exact peersAfter_of_break apart
  | cons key run ih =>
    rw [List.isChain_cons_cons] at ties
    rw [List.cons_append, peersAfter, ties.1, ih ties.2 (by simpa using apart)]
    rfl

theorem length_peersAfter (last : List SortKey) (keys : List (List SortKey)) :
    (peersAfter last keys).length = keys.length := by
  induction keys generalizing last with
  | nil => rfl
  | cons key keys ih => rw [peersAfter, List.length_cons, List.length_cons, ih]

theorem length_peers (keys : List (List SortKey)) : (peers keys).length = keys.length := by
  cases keys with
  | nil => rfl
  | cons key keys => rw [peers, List.length_cons, List.length_cons, length_peersAfter]

/-- A partition that is made of runs has the flags of each of them. -/
theorem peers_flatten {runs : List (List (List SortKey))} (inhabited : [] ∉ runs)
    (ties : ∀ run ∈ runs, run.IsChain fun last key => SortKey.tupleTies key last)
    (apart : runs.IsChain fun a b => ∃ ha hb,
      SortKey.tupleTies (b.head hb) (a.getLast ha) = false) :
    peers runs.flatten = (runs.map List.length).flatMap runFlags := by
  induction runs with
  | nil => rfl
  | cons run runs ih =>
    rw [List.mem_cons, not_or] at inhabited
    have rest := ih inhabited.2 (fun run h => ties run (by simp [h])) apart.tail
    obtain ⟨first, run, rfl⟩ := List.exists_cons_of_ne_nil (Ne.symm inhabited.1)
    have next : ∀ key ∈ runs.flatten.head?,
        SortKey.tupleTies key ((first :: run).getLast (by simp)) = false := by
      intro key hkey
      cases runs with
      | nil => cases hkey
      | cons second runs =>
        obtain ⟨_, nonempty, h⟩ := (List.isChain_cons_cons.mp apart).1
        obtain ⟨k, second, rfl⟩ := List.exists_cons_of_ne_nil nonempty
        cases hkey
        exact h
    rw [List.flatten_cons, List.cons_append, peers, peersAfter_append (ties _ (by simp)) next, rest]
    simp [runFlags]

theorem peers_eq (keys : List (List SortKey)) :
    peers keys = ((peerRuns keys).map List.length).flatMap runFlags := by
  obtain ⟨whole, inhabited, ties, apart⟩ := List.splitBy_eq_iff.mp (rfl : peerRuns keys = _)
  conv_lhs => rw [whole]
  exact peers_flatten inhabited ties apart

/-! ## Scans of runs -/

section

variable {size : Nat} {rest : List Bool} {before after : List Nat} {i : Nat}

theorem length_flatMap_runFlags {sizes : List Nat} (positive : ∀ size ∈ sizes, 0 < size) :
    (sizes.flatMap runFlags).length = sizes.sum := by
  induction sizes with
  | nil => rfl
  | cons size sizes ih =>
    have some_member := positive size (by simp)
    rw [List.flatMap_cons, List.length_append, ih fun s h => positive s (by simp [h]),
      List.sum_cons, runFlags, List.length_cons, List.length_replicate]
    omega

theorem ranksFrom_peers (index rank more : Nat) (rest : List Bool) :
    ranksFrom index rank (List.replicate more true ++ rest) =
      List.replicate more rank ++ ranksFrom (index + more) rank rest := by
  induction more generalizing index with
  | zero => rfl
  | succ more ih =>
    rw [List.replicate_succ, List.cons_append, ranksFrom, List.replicate_succ, List.cons_append,
      Nat.add_comm more 1, ← Nat.add_assoc]
    exact congrArg _ (ih (index + 1))

/-- The members of a run have the ordinal of the first of them. -/
theorem ranksFrom_run (positive : 0 < size) (index rank : Nat) (rest : List Bool) :
    ranksFrom index rank (runFlags size ++ rest) =
      List.replicate size (index + 1) ++ ranksFrom (index + size) (index + 1) rest := by
  obtain ⟨more, rfl⟩ : ∃ more, size = more + 1 := ⟨size - 1, by omega⟩
  rw [runFlags, List.cons_append, ranksFrom, List.replicate_succ, List.cons_append,
    Nat.add_sub_cancel, Nat.add_comm more 1, ← Nat.add_assoc]
  exact congrArg _ (ranksFrom_peers (index + 1) (index + 1) more rest)

theorem denseRanksFrom_peers (rank more : Nat) (rest : List Bool) :
    denseRanksFrom rank (List.replicate more true ++ rest) =
      List.replicate more rank ++ denseRanksFrom rank rest := by
  induction more with
  | zero => rfl
  | succ more ih =>
    rw [List.replicate_succ, List.cons_append, denseRanksFrom, List.replicate_succ,
      List.cons_append]
    exact congrArg _ ih

theorem denseRanksFrom_run (positive : 0 < size) (rank : Nat) (rest : List Bool) :
    denseRanksFrom rank (runFlags size ++ rest) =
      List.replicate size (rank + 1) ++ denseRanksFrom (rank + 1) rest := by
  obtain ⟨more, rfl⟩ : ∃ more, size = more + 1 := ⟨size - 1, by omega⟩
  rw [runFlags, List.cons_append, denseRanksFrom, List.replicate_succ, List.cons_append]
  exact congrArg _ (denseRanksFrom_peers (rank + 1) more rest)

theorem getElem?_ranksFrom (positive : ∀ size ∈ before, 0 < size) (index rank : Nat)
    (first : before.sum ≤ i) (last : i < before.sum + size) :
    (ranksFrom index rank ((before ++ size :: after).flatMap runFlags))[i]? =
      some (index + before.sum + 1) := by
  induction before generalizing index rank i with
  | nil =>
    rw [List.sum_nil, Nat.zero_add] at last
    rw [List.nil_append, List.flatMap_cons, ranksFrom_run (by omega),
      List.getElem?_append_left (by simpa using last), List.getElem?_replicate_of_lt last]
    rfl
  | cons s before ih =>
    rw [List.sum_cons] at first last ⊢
    rw [List.cons_append, List.flatMap_cons, ranksFrom_run (positive s (by simp)),
      List.getElem?_append_right (by simp; omega), List.length_replicate,
      ih (fun size h => positive size (by simp [h])) _ _ (by omega) (by omega), Nat.add_assoc index]

theorem getElem?_denseRanksFrom (positive : ∀ size ∈ before, 0 < size) (rank : Nat)
    (first : before.sum ≤ i) (last : i < before.sum + size) :
    (denseRanksFrom rank ((before ++ size :: after).flatMap runFlags))[i]? =
      some (rank + before.length + 1) := by
  induction before generalizing rank i with
  | nil =>
    rw [List.sum_nil, Nat.zero_add] at last
    rw [List.nil_append, List.flatMap_cons, denseRanksFrom_run (by omega),
      List.getElem?_append_left (by simpa using last), List.getElem?_replicate_of_lt last]
    rfl
  | cons s before ih =>
    rw [List.sum_cons] at first last
    rw [List.cons_append, List.flatMap_cons, denseRanksFrom_run (positive s (by simp)),
      List.getElem?_append_right (by simp; omega), List.length_replicate,
      ih (fun size h => positive size (by simp [h])) _ (by omega) (by omega), List.length_cons,
      Nat.add_assoc rank, Nat.add_comm 1]

/-- Behind a run the next one begins, or there is no member left. -/
theorem takeWhile_runs (more : Nat) (after : List Nat) :
    (List.replicate more true ++ after.flatMap runFlags).takeWhile id = List.replicate more true := by
  rw [List.takeWhile_append_of_pos (by simp)]
  cases after with
  | nil => simp
  | cons size after => simp [runFlags]

theorem lastPeer_runs (positive : ∀ size ∈ before, 0 < size) (first : before.sum ≤ i)
    (last : i < before.sum + size) :
    lastPeer ((before ++ size :: after).flatMap runFlags) i + 1 = before.sum + size := by
  obtain ⟨j, rfl⟩ : ∃ j, i = before.sum + j := ⟨i - before.sum, by omega⟩
  have behind : ((before ++ size :: after).flatMap runFlags).drop (before.sum + j + 1) =
      List.replicate (size - 1 - j) true ++ after.flatMap runFlags := by
    rw [List.flatMap_append, List.flatMap_cons, Nat.add_assoc, ← length_flatMap_runFlags positive,
      List.drop_append, List.drop_eq_nil_of_le (by omega), Nat.add_sub_cancel_left,
      List.drop_append_of_le_length (by simp [runFlags]; omega), runFlags, List.drop_succ_cons,
      List.drop_replicate, List.nil_append]
  rw [lastPeer, behind, takeWhile_runs, List.length_replicate]
  omega

end

/-! ## Runs of a partition -/

theorem flatten_peerRuns (keys : List (List SortKey)) : (peerRuns keys).flatten = keys :=
  (List.splitBy_eq_iff.mp (rfl : peerRuns keys = _)).1.symm

theorem length_pos_of_mem_peerRuns (keys : List (List SortKey)) {run : List (List SortKey)}
    (mem : run ∈ peerRuns keys) : 0 < run.length := by
  refine List.length_pos_of_ne_nil ?_
  rintro rfl
  exact (List.splitBy_eq_iff.mp (rfl : peerRuns keys = _)).2.1 mem

namespace IsPeerRun

variable {ordinal' start' stop' : Nat}

theorem start_lt_stop (h : IsPeerRun keys ordinal start stop) : start < stop := by
  obtain ⟨before, run, after, split, -, rfl, rfl⟩ := h
  exact Nat.lt_add_of_pos_right (length_pos_of_mem_peerRuns keys (by simp [split]))

theorem stop_le_length (h : IsPeerRun keys ordinal start stop) : stop ≤ keys.length := by
  obtain ⟨before, run, after, split, -, rfl, rfl⟩ := h
  have whole := congrArg List.length (flatten_peerRuns keys)
  rw [split, List.flatten_append, List.flatten_cons, List.length_append, List.length_append] at whole
  omega

/-- No run before is empty. -/
theorem ordinal_le (h : IsPeerRun keys ordinal start stop) : ordinal ≤ start + 1 := by
  obtain ⟨before, run, after, split, rfl, rfl, -⟩ := h
  have inhabited : ∀ run ∈ before, 1 ≤ run.length := fun run mem =>
    length_pos_of_mem_peerRuns keys (by simp [split, mem])
  have sizes := List.length_le_sum_of_one_le (before.map List.length) (by simpa using inhabited)
  rw [List.length_map] at sizes
  rw [List.length_flatten]
  omega

/-- A later run begins where an earlier one ends, or behind. -/
theorem stop_le_start (h : IsPeerRun keys ordinal start stop)
    (h' : IsPeerRun keys ordinal' start' stop') (earlier : ordinal < ordinal') : stop ≤ start' := by
  obtain ⟨before, run, after, split, rfl, rfl, rfl⟩ := h
  obtain ⟨before', run', after', split', rfl, rfl, -⟩ := h'
  exact flatten_le_of_length_lt (split.symm.trans split') (by omega)

theorem same_bounds (h : IsPeerRun keys ordinal start stop)
    (h' : IsPeerRun keys ordinal start' stop') : start = start' ∧ stop = stop' := by
  obtain ⟨before, run, after, split, rfl, rfl, rfl⟩ := h
  obtain ⟨before', run', after', split', size, rfl, rfl⟩ := h'
  obtain ⟨rfl, rest⟩ := List.append_inj (split.symm.trans split') (by omega)
  cases rest
  exact ⟨rfl, rfl⟩

/-- What the scans of the flags find in a run. -/
theorem scans (h : IsPeerRun keys ordinal start stop) {i : Nat} (first : start ≤ i)
    (last : i < stop) : (ranks (peers keys))[i]? = some (start + 1) ∧
      (denseRanks (peers keys))[i]? = some ordinal ∧ lastPeer (peers keys) i + 1 = stop := by
  obtain ⟨before, run, after, split, rfl, rfl, rfl⟩ := h
  have positive : ∀ size ∈ before.map List.length, 0 < size :=
    List.forall_mem_map.mpr fun run mem =>
      length_pos_of_mem_peerRuns keys (by simp [split, mem])
  rw [List.length_flatten] at first last ⊢
  rw [peers_eq, split, List.map_append, List.map_cons]
  refine ⟨(getElem?_ranksFrom positive 0 0 first last).trans ?_,
    (getElem?_denseRanksFrom positive 0 first last).trans ?_, lastPeer_runs positive first last⟩
  · rw [Nat.zero_add]
  · rw [Nat.zero_add, List.length_map]

end IsPeerRun

theorem exists_isPeerRun {i : Nat} (h : i < keys.length) :
    ∃ ordinal start stop, IsPeerRun keys ordinal start stop ∧ start ≤ i ∧ i < stop := by
  rw [← flatten_peerRuns keys] at h
  obtain ⟨before, run, after, split, first, last⟩ := exists_block h
  exact ⟨_, _, _, ⟨before, run, after, split, rfl, rfl, rfl⟩, first, last⟩

/-- The scans of a partition agree on its runs. -/
theorem peers_followsRuns (keys : List (List SortKey)) :
    FollowsRuns keys ((List.range keys.length).map (· + 1)) (ranks (peers keys))
      (denseRanks (peers keys)) (lastPeer (peers keys)) where
  covered i h := exists_isPeerRun h
  of_run := by
    intro ordinal start stop i run first last
    obtain ⟨rank, dense, peer⟩ := run.scans first last
    have bound := run.stop_le_length
    have inside : i < keys.length := by omega
    exact ⟨by rw [List.getElem?_map, List.getElem?_range inside]; rfl, rank, dense, peer⟩
  ascending i h := by
    obtain ⟨ordinal, start, stop, run, first, last⟩ := exists_isPeerRun h
    obtain ⟨rank, dense, peer⟩ := run.scans first last
    refine ⟨ordinal, start + 1, i + 1, dense, rank, ?_, run.ordinal_le, by omega, by omega⟩
    rw [List.getElem?_map, List.getElem?_range h]
    rfl
  same_iff i hi j hj := by
    obtain ⟨m, a, b, run, first, last⟩ := exists_isPeerRun hi
    obtain ⟨n, c, d, run', first', last'⟩ := exists_isPeerRun hj
    obtain ⟨rank, dense, -⟩ := run.scans first last
    obtain ⟨rank', dense', -⟩ := run'.scans first' last'
    have nonempty := run.start_lt_stop
    have nonempty' := run'.start_lt_stop
    have places : a = c ↔ m = n := by
      refine ⟨fun same => ?_, fun same => (run.same_bounds (same ▸ run')).1⟩
      rcases Nat.lt_trichotomy m n with earlier | same | later
      · have apart := run.stop_le_start run' earlier
        omega
      · exact same
      · have apart := run'.stop_le_start run later
        omega
    rw [rank, rank', dense, dense']
    refine ⟨by simpa using places, fun same => ?_, fun ⟨_, _, _, common, at_i, at_j⟩ => ?_⟩
    · cases same
      obtain ⟨rfl, rfl⟩ := run.same_bounds run'
      exact ⟨m, a, b, run, ⟨first, last⟩, first', last'⟩
    · rw [← dense, ← dense', (common.scans at_i.1 at_i.2).2.1, (common.scans at_j.1 at_j.2).2.1]

end TableQuery
