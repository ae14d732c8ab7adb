import Mathlib.Logic.Relation
import TableQuery.Proofs.Evaluation.Frame
import TableQuery.Proofs.Join.Chunks

/-!
# Chunks as tasks

A join may match its chunks as tasks of a pool, which start and finish in any order. The first task
that fails raises a flag, and a task that sees the flag when it starts is skipped. Whatever the
order, the join gives what a single chunk gives, or fails if that fails.
-/

namespace TableQuery

/-! ## The pool -/

/-- What has become of the task of a chunk. -/
inductive ChunkTask where
  | waiting
  | running
  | finished (result : Except QueryError MatchResult)

/-- The tasks of all chunks in order, the flag that says whether one failed, and the scope. -/
structure Pool where
  tasks : List ChunkTask
  failed : Bool
  scope : Scope

/-- What a skipped task gives. -/
def MatchResult.skipped : MatchResult :=
  ⟨[], []⟩

/-- Whether a result is a failure. -/
def isFailure {α : Type} : Except QueryError α → Bool
  | .ok _ => false
  | .error _ => true

namespace Pool

/-- The pool before any task starts. -/
def start (count : Nat) (s : Scope) : Pool :=
  { tasks := List.replicate count .waiting, failed := false, scope := s }

/-- The pool in which the task of a chunk is in another state. -/
def setTask (p : Pool) (i : Nat) (task : ChunkTask) : Pool :=
  { p with tasks := p.tasks.set i task }

/-- The pool after a running task gave its result and left its scope. -/
def finish (p : Pool) (i : Nat) (outcome : Except QueryError MatchResult × Scope) : Pool :=
  { tasks := p.tasks.set i (.finished outcome.1)
    failed := p.failed || isFailure outcome.1
    scope := outcome.2 }

/-- One step of one task. A task may start although the flag is up, because it may see the flag
late; it is skipped only if the flag is up. -/
inductive Step (m : Matcher) (chunks : List (List Record)) : Pool → Pool → Prop
  | start {p : Pool} {i : Nat} (waiting : p.tasks[i]? = some .waiting) :
    Step m chunks p (p.setTask i .running)
  | skip {p : Pool} {i : Nat} (waiting : p.tasks[i]? = some .waiting) (failed : p.failed = true) :
    Step m chunks p (p.setTask i (.finished (.ok .skipped)))
  | finish {p : Pool} {i : Nat} {chunk : List Record} (running : p.tasks[i]? = some .running)
    (hchunk : chunks[i]? = some chunk) :
    Step m chunks p (p.finish i (Eval.exec (m.matchChunk chunk) p.scope))

/-- Any number of steps of any tasks. -/
def Runs (m : Matcher) (chunks : List (List Record)) : Pool → Pool → Prop :=
  Relation.ReflTransGen (Step m chunks)

/-- All tasks are finished, with the given results. -/
def Finished (p : Pool) (results : List (Except QueryError MatchResult)) : Prop :=
  p.tasks = results.map .finished

end Pool

/-- What the results of all chunks give together: the first failure in the order of the chunks
decides the error. -/
def gather (others : Nat) (results : List (Except QueryError MatchResult)) :
    Except QueryError MatchResult :=
  MatchResult.concat others <$> results.mapM id

/-! ## What every run keeps -/

/-- What a run that started in `s` can have made of a pool. -/
structure Pool.Invariant (m : Matcher) (chunks : List (List Record)) (s : Scope) (p : Pool) :
    Prop where
  scope : p.scope = s
  length : p.tasks.length = chunks.length
  /-- A finished task gave what its chunk gives, or it was skipped because another one failed. -/
  results : ∀ (i : Nat) result, p.tasks[i]? = some (ChunkTask.finished result) →
    chunks[i]?.map (m.resultOf s) = some result ∨ result = .ok .skipped ∧ p.failed = true
  /-- The flag is up only if a task failed. -/
  failed : p.failed = true →
    ∃ (i : Nat) (e : QueryError), p.tasks[i]? = some (ChunkTask.finished (.error e))

namespace Pool

variable {m : Matcher} {chunks : List (List Record)} {s : Scope} {p q : Pool}

theorem start_invariant (m : Matcher) (chunks : List (List Record)) (s : Scope) :
    (Pool.start chunks.length s).Invariant m chunks s where
  scope := rfl
  length := List.length_replicate
  results i result h := by
    rw [start, List.getElem?_replicate] at h
    split at h <;> simp at h
  failed h := by cases h

/-- A failure that is there remains while another task changes. -/
theorem failure_set {tasks : List ChunkTask} {i : Nat} {old new : ChunkTask}
    (hi : tasks[i]? = some old) (hold : ∀ result, old ≠ .finished result)
    (h : ∃ (j : Nat) (e : QueryError), tasks[j]? = some (ChunkTask.finished (.error e))) :
    ∃ (j : Nat) (e : QueryError), (tasks.set i new)[j]? = some (ChunkTask.finished (.error e)) := by
  obtain ⟨j, e, hj⟩ := h
  refine ⟨j, e, ?_⟩
  have hne : i ≠ j := by
    rintro rfl
    rw [hi] at hj
    exact hold _ (Option.some.inj hj)
  rw [List.getElem?_set_ne hne, hj]

/-- One step keeps the invariant. -/
theorem Step.keeps (hm : m.Stays s) (hp : p.Invariant m chunks s) (h : Step m chunks p q) :
    q.Invariant m chunks s := by
  cases h with
  | @start i waiting =>
    -- a running task has no result, so the results are those from before
    refine ⟨hp.scope, ?_, fun j result hj => ?_, fun hf => ?_⟩
    · rw [setTask, List.length_set, hp.length]
    · rw [setTask, List.getElem?_set] at hj
      split at hj
      · split at hj <;> simp at hj
      · exact hp.results j result hj
    · exact failure_set waiting (fun _ h => by cases h) (hp.failed hf)
  | @skip i waiting failed =>
    -- the flag that lets a task be skipped is the one that the invariant asks for
    refine ⟨hp.scope, ?_, fun j result hj => ?_, fun hf => ?_⟩
    · rw [setTask, List.length_set, hp.length]
    · rw [setTask, List.getElem?_set] at hj
      split at hj
      · split at hj
        · cases hj
          exact .inr ⟨rfl, failed⟩
        · cases hj
      · exact hp.results j result hj
    · exact failure_set waiting (fun _ h => by cases h) (hp.failed hf)
  | @finish i chunk running hchunk =>
    -- the pool is still in the scope `s`, so the task gives what its chunk gives alone
    rw [hp.scope, Matcher.exec_matchChunk hm, ← Matcher.resultOf_eq hm]
    have hlt : i < p.tasks.length := (List.getElem?_eq_some_iff.mp running).1
    refine ⟨rfl, ?_, fun j result hj => ?_, fun hf => ?_⟩
    · rw [Pool.finish, List.length_set, hp.length]
    · rw [Pool.finish, List.getElem?_set] at hj
      split at hj
      · rename_i hij
        cases hj
        left
        rw [← hij, hchunk, Option.map_some]
      · obtain hr | ⟨hr, hf⟩ := hp.results j result hj
        · exact .inl hr
        · exact .inr ⟨hr, by simp [Pool.finish, hf]⟩
    · cases hr : m.resultOf s chunk with
      | error e =>
        refine ⟨i, e, ?_⟩
        simp [Pool.finish, hlt]
      | ok r =>
        rw [hr] at hf
        have : p.failed = true := by simpa [Pool.finish, isFailure] using hf
        exact failure_set running (fun _ h => by cases h) (hp.failed this)

/-- Any number of steps keeps the invariant. -/
theorem Runs.keeps (hm : m.Stays s) (hp : p.Invariant m chunks s) (h : Runs m chunks p q) :
    q.Invariant m chunks s := by
  induction h with
  | refl => exact hp
  | tail _ step ih => exact step.keeps hm ih

end Pool

/-! ## Every pool can be run to its end -/

namespace Pool

variable {m : Matcher} {chunks : List (List Record)} {s : Scope}

/-- The tasks in order, one after the other: after `k` of them the others still wait. -/
theorem exists_run_of_first (m : Matcher) (chunks : List (List Record)) (s : Scope) (k : Nat)
    (hk : k ≤ chunks.length) :
    ∃ pool, ∃ results : List (Except QueryError MatchResult),
      Runs m chunks (.start chunks.length s) pool ∧ results.length = k ∧
      pool.tasks = results.map .finished ++ List.replicate (chunks.length - k) .waiting := by
  induction k with
  | zero => exact ⟨_, [], .refl, rfl, rfl⟩
  | succ k ih =>
    -- task `k` starts and finishes after the first `k` tasks have finished
    obtain ⟨pool, results, hruns, hlength, htasks⟩ := ih (Nat.le_of_succ_le hk)
    have hrest : chunks.length - k = chunks.length - (k + 1) + 1 := by omega
    rw [hrest, List.replicate_succ] at htasks
    have at_k (task : ChunkTask) (rest : List ChunkTask) :
        (results.map ChunkTask.finished ++ task :: rest)[k]? = some task := by
      rw [List.getElem?_append_right (by simp [hlength])]
      simp [hlength]
    have set_k (task new : ChunkTask) (rest : List ChunkTask) :
        (results.map ChunkTask.finished ++ task :: rest).set k new
          = results.map ChunkTask.finished ++ new :: rest := by
      rw [List.set_append_right _ _ (by simp [hlength])]
      simp [hlength]
    have waiting : pool.tasks[k]? = some .waiting := by rw [htasks, at_k]
    have running : (pool.setTask k .running).tasks[k]? = some .running := by
      rw [setTask, htasks, set_k, at_k]
    have hchunk : chunks[k]? = some chunks[k] := List.getElem?_eq_getElem hk
    let outcome := Eval.exec (m.matchChunk chunks[k]) pool.scope
    refine ⟨_, results ++ [outcome.1],
      (hruns.tail (.start waiting)).tail (.finish running hchunk), ?_, ?_⟩
    · rw [List.length_append, hlength, List.length_singleton]
    · rw [finish, setTask, htasks, set_k, set_k, List.map_append, List.append_assoc]
      rfl

/-- A pool can be run to its end. -/
theorem exists_finished (m : Matcher) (chunks : List (List Record)) (s : Scope) :
    ∃ pool results, Runs m chunks (.start chunks.length s) pool ∧ pool.Finished results := by
  obtain ⟨pool, results, hruns, -, htasks⟩ := exists_run_of_first m chunks s _ (Nat.le_refl _)
  rw [Nat.sub_self, List.replicate_zero, List.append_nil] at htasks
  exact ⟨pool, results, hruns, htasks⟩

end Pool

/-! ## What a finished run gives -/

/-- What is computed in parts succeeds with what is computed at once, or fails if that fails. -/
def AgreesWith {α : Type} (atOnce inParts : Except QueryError α) : Prop :=
  match atOnce with
  | .ok a => inParts = .ok a
  | .error _ => ∃ e, inParts = .error e

theorem AgreesWith.refl {α : Type} (x : Except QueryError α) : AgreesWith x x := by
  cases x with
  | ok a => rfl
  | error e => exact ⟨e, rfl⟩

theorem AgreesWith.map {α β : Type} (f : α → β) {x y : Except QueryError α} (h : AgreesWith x y) :
    AgreesWith (f <$> x) (f <$> y) := by
  cases x with
  | ok a =>
    have hy : y = .ok a := h
    subst hy
    exact rfl
  | error e =>
    obtain ⟨e', rfl⟩ := h
    exact ⟨e', rfl⟩

namespace Pool.Invariant

variable {m : Matcher} {chunks : List (List Record)} {s : Scope} {p : Pool}
  {results : List (Except QueryError MatchResult)}

theorem result_at (hr : p.Finished results) (i : Nat) :
    p.tasks[i]? = results[i]?.map .finished := by
  rw [hr, List.getElem?_map]

/-- Without a failure every chunk was matched. -/
theorem results_eq (hp : p.Invariant m chunks s) (hr : p.Finished results)
    (hf : p.failed = false) : results = chunks.map (m.resultOf s) := by
  apply List.ext_getElem?
  intro i
  rw [List.getElem?_map]
  cases hi : results[i]? with
  | none =>
    have hlen : results.length = chunks.length := by
      rw [← hp.length, hr, List.length_map]
    rw [List.getElem?_eq_none_iff, hlen, ← List.getElem?_eq_none_iff] at hi
    rw [hi, Option.map_none]
  | some r =>
    have ht : p.tasks[i]? = some (.finished r) := by rw [result_at hr, hi, Option.map_some]
    obtain h | ⟨-, h⟩ := hp.results i r ht
    · exact h.symm
    · rw [hf] at h
      cases h

/-- After a failure some chunk is known to fail. -/
theorem exists_failure (hp : p.Invariant m chunks s) (hr : p.Finished results)
    (hf : p.failed = true) :
    ∃ e, .error e ∈ results ∧ ∃ chunk ∈ chunks, m.resultOf s chunk = .error e := by
  obtain ⟨i, e, hi⟩ := hp.failed hf
  have hi' := hi
  rw [result_at hr, Option.map_eq_some_iff] at hi'
  obtain ⟨_, hres, heq⟩ := hi'
  cases heq
  refine ⟨e, List.mem_of_getElem? hres, ?_⟩
  obtain h | ⟨h, -⟩ := hp.results i _ hi
  · obtain ⟨chunk, hc, hce⟩ := Option.map_eq_some_iff.mp h
    exact ⟨chunk, List.mem_of_getElem? hc, hce⟩
  · cases h

/-- The results of a finished pool agree with matching all driving records at once. -/
theorem gathered (hm : m.Stays s) (hp : p.Invariant m chunks s) (hr : p.Finished results) :
    AgreesWith (m.resultOf s chunks.flatten) (gather m.others.length results) := by
  rw [Matcher.resultOf_flatten hm]
  unfold gather
  apply AgreesWith.map
  cases hf : p.failed with
  | false =>
    rw [hp.results_eq hr hf, List.mapM_map]
    exact .refl _
  | true =>
    obtain ⟨e, hmem, chunk, hchunk, he⟩ := hp.exists_failure hr hf
    obtain ⟨e', he'⟩ := mapM_error_of_mem hchunk he
    rw [he']
    exact mapM_error_of_mem hmem rfl

end Pool.Invariant

/-! ## Joins -/

/-- The chunks of driving records of a join. -/
def joinChunks (kind : JoinKind) (left right : View) (count : Nat) : List (List Record) :=
  let driving := drivingRecords kind left right
  (chunkRanges driving.length count).map (elementsIn driving)

theorem flatten_joinChunks (kind : JoinKind) (left right : View) (count : Nat) :
    (joinChunks kind left right count).flatten = drivingRecords kind left right := by
  rw [joinChunks, ← List.flatMap_def]
  exact flatMap_elementsIn_chunkRanges _ _

/-- How the records of a join are matched. -/
def joinMatcher (kind : JoinKind) (left right : View) (condition : Option JoinCondition)
    (env : Env) : Matcher :=
  matcherOf kind left right (testPair condition env (left.header.append right.header))

theorem matcherOf_stays {kind : JoinKind} {left right : View} {test : Record → Eval Bool}
    {s : Scope} (h : ∀ r, (Eval.exec (test r) s).2 = s) :
    (matcherOf kind left right test).Stays s := by
  cases kind <;> exact h

/-- The number of chunks does not show in the result of a join. -/
theorem exec_joinInChunks {kind : JoinKind} {left right : View} {condition : Option JoinCondition}
    {env : Env} {s : Scope} (hm : (joinMatcher kind left right condition env).Stays s)
    (count : Nat) :
    Eval.exec (joinInChunks kind left right condition env count) s
      = (joinedView kind left right <$>
          (joinMatcher kind left right condition env).resultOf s (drivingRecords kind left right),
        s) := by
  have h := Matcher.exec_matchChunks hm (drivingRecords kind left right)
    (chunkRanges (drivingRecords kind left right).length count)
  rw [← Matcher.resultOf_flatten hm, ← List.flatMap_def, flatMap_elementsIn_chunkRanges] at h
  rw [joinInChunks, bind_pure_comp, Eval.exec_map]
  exact congrArg (Prod.map (joinedView kind left right <$> ·) id) h

/-- A condition without assignments leaves the scope alone. -/
theorem joinMatcher_stays {kind : JoinKind} {left right : View} {on : JoinMatch}
    (hon : Unassigned on.parts) {pairs? : Option (List (Nat × Nat))}
    (hp : on.meaning.pairs? left.header right.header = .ok pairs?) (env : Env) (s : Scope) :
    (joinMatcher kind left right (on.meaning.condition? left.header right.header pairs?)
      env).Stays s := by
  have A := unassigned_agreement s
  have hc := on.meaning.condition?_agreesOn A (on.meaning_agrees A hon)
    (fun _ => .inl fun _ _ h _ _ => h ▸ rfl) hp
  exact matcherOf_stays fun r => (testPair_same hc rfl r).keeps rfl

/-- Chunked joins refine the join in a single chunk. The chunks cover every driving record once, in
order; the number of chunks does not show; and tasks that start, finish and are skipped in any order
give the records of the single chunk in its order, or a failure if it fails. -/
theorem chunked_join_agrees (kind : JoinKind) (left right : View) {on : JoinMatch}
    (hon : Unassigned on.parts) {pairs? : Option (List (Nat × Nat))}
    (hp : on.meaning.pairs? left.header right.header = .ok pairs?) (env : Env) (s : Scope) :
    let condition := on.meaning.condition? left.header right.header pairs?
    let matcher := joinMatcher kind left right condition env
    let count := (drivingRecords kind left right).length
    let chunks := chunkCount env.settings.cpu count (condition.any JoinCondition.assigns)
    let ranges := chunkRanges count chunks
    let single := Eval.exec (joinInChunks kind left right condition env 1) s
    (ranges.flatMap (fun r => List.range' r.1 (r.2 - r.1)) = List.range count ∧
      ∀ r ∈ ranges, r.1 < r.2) ∧
    Eval.exec (matchJoin kind left right condition env) s = single ∧
    ∀ pool results,
      Pool.Runs matcher (joinChunks kind left right chunks) (.start ranges.length s) pool →
      pool.Finished results →
      pool.scope = single.2 ∧
      AgreesWith single.1 (joinedView kind left right <$> gather matcher.others.length results) := by
  intro condition matcher count chunks ranges single
  have stays : matcher.Stays s := joinMatcher_stays hon hp env s
  have hsingle : single = _ := exec_joinInChunks stays 1
  refine ⟨⟨flatMap_range'_chunkRanges count chunks, fun r hr => (chunkRanges_bounds hr).1⟩, ?_, ?_⟩
  · rw [hsingle]
    exact exec_joinInChunks stays chunks
  · intro pool results hruns hfinished
    have hlength : (joinChunks kind left right chunks).length = ranges.length := List.length_map _
    rw [← hlength] at hruns
    have inv := hruns.keeps stays (Pool.start_invariant matcher _ s)
    have gathered := inv.gathered stays hfinished
    -- the chunks together are the driving records, which the single chunk has at once
    rw [flatten_joinChunks] at gathered
    rw [hsingle]
    exact ⟨inv.scope, gathered.map _⟩

/-- Two tasks of forty records each. -/
theorem chunked_join_agrees_two_tasks :
    let side : View :=
      { header := .ofNames "t" ["a"], records := List.replicate 80 (.ofValues [.integer 1]) }
    let env : Env := { settings := { cpu := 2 } }
    let matcher := joinMatcher .full side side none env
    ∃ pool results, Pool.Runs matcher (joinChunks .full side side 2) (.start 2 {}) pool ∧
      pool.Finished results ∧
      AgreesWith (Eval.exec (joinInChunks .full side side none env 1) {}).1
        (joinedView .full side side <$> gather matcher.others.length results) := by
  intro side env matcher
  have unassigned : Unassigned JoinMatch.always.parts := allParts_nil
  have unpaired : JoinMatch.always.meaning.pairs? side.header side.header = .ok none := rfl
  have agrees := (chunked_join_agrees .full side side unassigned unpaired env {}).2.2
  have hcount : (drivingRecords .full side side).length = 80 := List.length_replicate
  have hchunks : chunkCount 2 80 false = 2 := by decide
  have hranges : (chunkRanges 80 2).length = 2 := by decide
  have hlength : (joinChunks .full side side 2).length = 2 := by
    rw [joinChunks, List.length_map, hcount, hranges]
  change ∀ pool results, Pool.Runs matcher (joinChunks .full side side
    (chunkCount 2 (drivingRecords .full side side).length false))
    (.start (chunkRanges _ (chunkCount 2 _ false)).length {}) pool → _ at agrees
  rw [hcount, hchunks, hranges] at agrees
  obtain ⟨pool, results, hruns, hfinished⟩ :=
    Pool.exists_finished matcher (joinChunks .full side side 2) {}
  rw [hlength] at hruns
  exact ⟨pool, results, hruns, hfinished, (agrees pool results hruns hfinished).2⟩

end TableQuery
