import TableQuery.Proofs.Evaluation.Results
import TableQuery.Proofs.Evaluation.Sources

/-!
# Chunks of driving records

Chunks split the driving records of a join without a gap and without an overlap, and what their
results give together does not depend on the split.
-/

namespace TableQuery

/-! ## Ranges -/

/-- The elements in a range of indices. -/
def elementsIn {α : Type} (xs : List α) (range : Nat × Nat) : List α :=
  (xs.drop range.1).take (range.2 - range.1)

theorem chunkSize_pos (count chunks : Nat) : 0 < chunkSize count chunks := by
  unfold chunkSize
  omega

/-- The first `k` ranges of a size hold the first elements. -/
theorem flatMap_elementsIn_range {α : Type} (xs : List α) (size k : Nat) :
    ((List.range k).flatMap fun i => elementsIn xs (i * size, min ((i + 1) * size) xs.length))
      = xs.take (k * size) := by
  induction k with
  | zero => simp
  | succ k ih =>
    have next : elementsIn xs (k * size, min ((k + 1) * size) xs.length)
        = (xs.drop (k * size)).take size := by
      unfold elementsIn
      rw [Nat.succ_mul, List.take_eq_take_iff, List.length_drop]
      dsimp only
      omega
    rw [List.range_succ, List.flatMap_append, ih, List.flatMap_singleton, next, Nat.succ_mul,
      List.take_add]

/-- The chunks of a list, one after the other, are the list. -/
theorem flatMap_elementsIn_chunkRanges {α : Type} (xs : List α) (chunks : Nat) :
    (chunkRanges xs.length chunks).flatMap (elementsIn xs) = xs := by
  have hpos := chunkSize_pos xs.length chunks
  unfold chunkRanges
  dsimp only
  generalize chunkSize xs.length chunks = size at hpos
  rw [List.flatMap_map, flatMap_elementsIn_range]
  apply List.take_of_length_le
  have hdiv := Nat.div_add_mod (xs.length + size - 1) size
  have hmod := Nat.mod_lt (xs.length + size - 1) hpos
  rw [Nat.mul_comm] at hdiv
  omega

/-- No chunk is empty, and none reaches beyond the last index. -/
theorem chunkRanges_bounds {count chunks : Nat} {r : Nat × Nat} (h : r ∈ chunkRanges count chunks) :
    r.1 < r.2 ∧ r.2 ≤ count := by
  have hpos := chunkSize_pos count chunks
  obtain ⟨i, hi, rfl⟩ := List.mem_map.mp h
  rw [List.mem_range] at hi
  generalize chunkSize count chunks = size at *
  have hlt : i * size < count := by
    have := (Nat.le_div_iff_mul_le hpos).mp (Nat.succ_le_of_lt hi)
    rw [Nat.succ_mul] at this
    omega
  rw [Nat.succ_mul]
  dsimp only
  omega

/-- The chunks cover every index once, in order. -/
theorem flatMap_range'_chunkRanges (count chunks : Nat) :
    ((chunkRanges count chunks).flatMap fun r => List.range' r.1 (r.2 - r.1))
      = List.range count := by
  have h := flatMap_elementsIn_chunkRanges (List.range count) chunks
  rw [List.length_range] at h
  refine (List.flatMap_congr fun r hr => ?_).trans h
  have := chunkRanges_bounds hr
  rw [elementsIn, List.range_eq_range', List.drop_range', List.take_range'_of_length_ge (by omega)]
  simp

/-! ## Results of parts -/

namespace MatchResult

/-- The flags of results, put together with those that are given. -/
def marked (flags : List Bool) (results : List MatchResult) : List Bool :=
  results.foldl (fun flags r => orFlags flags r.matched) flags

theorem marked_append (flags : List Bool) (xs ys : List MatchResult) :
    marked flags (xs ++ ys) = marked (marked flags xs) ys :=
  List.foldl_append

theorem length_orFlags (as bs : List Bool) : (orFlags as bs).length = as.length := by
  induction as generalizing bs with
  | nil => cases bs <;> rfl
  | cons a as ih =>
    cases bs with
    | nil => rfl
    | cons b bs => rw [orFlags, List.length_cons, ih, List.length_cons]

/-- Marking twice marks what either list marks, if the last one covers no more than the other. -/
theorem orFlags_assoc (as bs cs : List Bool) (h : cs.length ≤ bs.length) :
    orFlags as (orFlags bs cs) = orFlags (orFlags as bs) cs := by
  induction as generalizing bs cs with
  | nil => cases orFlags bs cs <;> cases bs <;> cases cs <;> rfl
  | cons a as ih =>
    cases bs with
    | nil =>
      cases cs with
      | nil => rfl
      | cons c cs => simp at h
    | cons b bs =>
      cases cs with
      | nil => rfl
      | cons c cs =>
        simp only [orFlags, Bool.or_assoc]
        rw [ih bs cs (by simpa using h)]

theorem orFlags_none (as : List Bool) (n : Nat) : orFlags as (List.replicate n false) = as := by
  induction as generalizing n with
  | nil => cases n <;> rfl
  | cons a as ih =>
    cases n with
    | zero => rfl
    | succ n => rw [List.replicate_succ, orFlags, ih, Bool.or_false]

/-- Every result covers at most `n` of the others. -/
def Covered (n : Nat) (results : List MatchResult) : Prop :=
  ∀ r ∈ results, r.matched.length ≤ n

theorem orFlags_marked (as bs : List Bool) (results : List MatchResult)
    (h : Covered bs.length results) :
    orFlags as (marked bs results) = marked (orFlags as bs) results := by
  induction results generalizing as bs with
  | nil => rfl
  | cons r results ih =>
    have hr := h r (by simp)
    have hrest : Covered (orFlags bs r.matched).length results := by
      rw [length_orFlags]
      exact fun x hx => h x (by simp [hx])
    rw [marked, marked, List.foldl_cons, List.foldl_cons, ← orFlags_assoc as bs _ hr]
    exact ih as _ hrest

theorem marked_concat (n : Nat) (flags : List Bool) (parts : List (List MatchResult))
    (h : ∀ part ∈ parts, Covered n part) :
    marked flags (parts.map (concat n)) = marked flags parts.flatten := by
  induction parts generalizing flags with
  | nil => rfl
  | cons part parts ih =>
    have hpart : Covered (List.replicate n false).length part := by
      rw [List.length_replicate]
      exact h part (by simp)
    have first : orFlags flags (concat n part).matched = marked flags part := by
      have := orFlags_marked flags (List.replicate n false) part hpart
      rwa [orFlags_none] at this
    have rest := ih (marked flags part) fun p hp => h p (by simp [hp])
    rw [List.map_cons, List.flatten_cons, marked_append, ← rest, marked, List.foldl_cons, first]
    rfl

/-- Putting parts together in two steps is the same as in one. -/
theorem concat_flatten (n : Nat) (parts : List (List MatchResult))
    (h : ∀ part ∈ parts, Covered n part) :
    concat n (parts.map (concat n)) = concat n parts.flatten := by
  have records : (parts.map (concat n)).flatMap MatchResult.records
      = parts.flatten.flatMap MatchResult.records := by
    rw [List.flatMap_map, List.flatten_eq_flatMap, List.flatMap_assoc]
    rfl
  have flags := marked_concat n (List.replicate n false) parts h
  unfold marked at flags
  rw [concat, concat, records, flags]

end MatchResult

/-! ## Chunks in a scope that stays -/

namespace Matcher

/-- The tests of the matcher leave the scope alone. -/
def Stays (m : Matcher) (s : Scope) : Prop :=
  ∀ r, (Eval.exec (m.test r) s).2 = s

/-- What matching one driving record gives in a scope. -/
def resultFor (m : Matcher) (s : Scope) (driving : Record) : Except QueryError MatchResult :=
  (Eval.exec (m.matchRecord driving) s).1

/-- What matching a chunk gives in a scope. -/
def resultOf (m : Matcher) (s : Scope) (driving : List Record) : Except QueryError MatchResult :=
  (Eval.exec (m.matchChunk driving) s).1

variable {m : Matcher} {s : Scope}

theorem exec_matchRecord (h : m.Stays s) (driving : Record) :
    Eval.exec (m.matchRecord driving) s = (m.resultFor s driving, s) := by
  have stays : (Eval.exec (m.matchRecord driving) s).2 = s := by
    rw [matchRecord, Eval.exec_bind,
      Eval.exec_mapM_of_stays fun other _ => h (m.pair driving other)]
    cases m.others.mapM fun other => (Eval.exec (m.test (m.pair driving other)) s).1 <;> rfl
  exact Prod.ext rfl stays

theorem exec_matchChunk (h : m.Stays s) (driving : List Record) :
    Eval.exec (m.matchChunk driving) s
      = (MatchResult.concat m.others.length <$> driving.mapM (m.resultFor s), s) := by
  have stays (r : Record) : (Eval.exec (m.matchRecord r) s).2 = s := by
    rw [exec_matchRecord h]
  rw [matchChunk, bind_pure_comp, Eval.exec_map, Eval.exec_mapM_of_stays fun r _ => stays r]
  rfl

theorem resultOf_eq (h : m.Stays s) (driving : List Record) :
    m.resultOf s driving = MatchResult.concat m.others.length <$> driving.mapM (m.resultFor s) := by
  rw [resultOf, exec_matchChunk h]

theorem exec_matchChunks (h : m.Stays s) (driving : List Record) (ranges : List (Nat × Nat)) :
    Eval.exec (m.matchChunks driving ranges) s
      = (MatchResult.concat m.others.length <$>
          (ranges.map (elementsIn driving)).mapM (m.resultOf s), s) := by
  have stays (chunk : List Record) : (Eval.exec (m.matchChunk chunk) s).2 = s := by
    rw [exec_matchChunk h]
  rw [matchChunks, bind_pure_comp, Eval.exec_map, Eval.exec_mapM_of_stays fun r _ => stays _,
    List.mapM_map]
  rfl

/-- A result says for each of the others whether anything matched it. -/
theorem length_matched (h : m.Stays s) {driving : Record} {r : MatchResult}
    (hr : m.resultFor s driving = .ok r) : r.matched.length = m.others.length := by
  rw [resultFor, matchRecord, Eval.exec_bind,
    Eval.exec_mapM_of_stays fun other _ => h (m.pair driving other)] at hr
  cases hf : m.others.mapM fun other => (Eval.exec (m.test (m.pair driving other)) s).1 with
  | error e => rw [hf] at hr; cases hr
  | ok flags =>
    rw [hf] at hr
    cases hr
    exact (mapM_eq_ok_iff.mp hf).length_eq.symm

/-- Matching all driving records at once is matching them part by part. -/
theorem resultOf_flatten (h : m.Stays s) (parts : List (List Record)) :
    m.resultOf s parts.flatten
      = MatchResult.concat m.others.length <$> parts.mapM (m.resultOf s) := by
  have each : m.resultOf s = fun part =>
      MatchResult.concat m.others.length <$> part.mapM (m.resultFor s) :=
    funext fun part => resultOf_eq h part
  rw [each, mapM_map_result]
  dsimp only
  rw [mapM_flatten]
  cases hp : parts.mapM fun part => part.mapM (m.resultFor s) with
  | error e => rfl
  | ok results =>
    have covered : ∀ rs ∈ results, MatchResult.Covered m.others.length rs := by
      intro rs hrs r hr
      obtain ⟨part, -, hpart⟩ := exists_of_mem_mapM hp hrs
      obtain ⟨driving, -, hd⟩ := exists_of_mem_mapM hpart hr
      exact Nat.le_of_eq (length_matched h hd)
    exact congrArg Except.ok (MatchResult.concat_flatten _ results covered).symm

end Matcher

end TableQuery
