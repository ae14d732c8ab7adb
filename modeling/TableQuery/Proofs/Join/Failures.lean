import TableQuery.Proofs.Join.Tasks

/-!
# Joins that fail

A join that is matched in tasks reports the first failure in the order of its chunks. Which chunks
are matched at all depends on the order of the tasks, since a task that finds the flag raised is
skipped. So the error is that of the first failing pair among the chunks that were not skipped, and
each chunk that fails is the first one in some run.
-/

namespace TableQuery

/-! ## The first failing pair -/

section

variable {α β : Type}

/-- The error of a result, if it is one. -/
def failure? : Except QueryError α → Option QueryError
  | .ok _ => none
  | .error e => some e

theorem failure?_eq_some_iff {x : Except QueryError α} {e : QueryError} :
    failure? x = some e ↔ x = .error e := by
  cases x <;> simp [failure?]

theorem failure?_map (f : α → β) (x : Except QueryError α) : failure? (f <$> x) = failure? x := by
  cases x <;> rfl

theorem failure?_mapM (f : α → Except QueryError β) (as : List α) :
    failure? (as.mapM f) = as.findSome? fun a => failure? (f a) := by
  induction as with
  | nil => rfl
  | cons a as ih =>
    rw [List.mapM_cons, List.findSome?_cons, ← ih]
    cases f a with
    | error e => rfl
    | ok b => exact (congrArg failure? (bind_pure_comp ..)).trans (failure?_map ..)

end

namespace Matcher

variable {m : Matcher} {s : Scope}

/-- The pairs that are tested, by driving records and for each of these by the others. -/
def pairs (m : Matcher) (driving : List Record) : List Record :=
  driving.flatMap fun d => m.others.map (m.pair d)

/-- The error of the first pair whose test fails. -/
def firstFailure? (m : Matcher) (s : Scope) (driving : List Record) : Option QueryError :=
  (m.pairs driving).findSome? fun r => failure? (Eval.exec (m.test r) s).1

theorem failure?_resultFor (h : m.Stays s) (driving : Record) :
    failure? (m.resultFor s driving) =
      (m.others.map (m.pair driving)).findSome? fun r => failure? (Eval.exec (m.test r) s).1 := by
  rw [resultFor, matchRecord, bind_pure_comp, Eval.exec_map,
    Eval.exec_mapM_of_stays fun other _ => h (m.pair driving other), List.findSome?_map]
  exact (failure?_map ..).trans (failure?_mapM ..)

/-- Matching fails with the first pair that fails. -/
theorem failure?_resultOf (h : m.Stays s) (driving : List Record) :
    failure? (m.resultOf s driving) = m.firstFailure? s driving := by
  rw [resultOf_eq h, failure?_map, failure?_mapM, firstFailure?, pairs]
  induction driving with
  | nil => rfl
  | cons d driving ih =>
    rw [List.findSome?_cons, List.flatMap_cons, List.findSome?_append, ← ih, failure?_resultFor h]
    cases (m.others.map (m.pair d)).findSome? fun r => failure? (Eval.exec (m.test r) s).1 <;> rfl

theorem resultOf_eq_error_iff (h : m.Stays s) {driving : List Record} {e : QueryError} :
    m.resultOf s driving = .error e ↔ m.firstFailure? s driving = some e := by
  rw [← failure?_resultOf h, failure?_eq_some_iff]

/-- The error of the first failing pair of a chunk. -/
def failureAt (m : Matcher) (s : Scope) (chunks : List (List Record)) (k : Nat) :
    Option QueryError :=
  chunks[k]?.bind (m.firstFailure? s)

theorem failureAt_eq_some_iff (h : m.Stays s) {chunks : List (List Record)} {k : Nat}
    {e : QueryError} :
    m.failureAt s chunks k = some e ↔ chunks[k]?.map (m.resultOf s) = some (.error e) := by
  rw [failureAt, Option.bind_eq_some_iff, Option.map_eq_some_iff]
  exact exists_congr fun chunk => and_congr_right fun _ => (resultOf_eq_error_iff h).symm

/-- A chunk is the first one with a failing pair, and its first one gives the error. -/
structure FailsFirstAt (m : Matcher) (s : Scope) (chunks : List (List Record)) (k : Nat)
    (e : QueryError) : Prop where
  fails : m.failureAt s chunks k = some e
  before : ∀ j < k, m.failureAt s chunks j = none

theorem firstFailure?_flatten (m : Matcher) (s : Scope) (chunks : List (List Record)) :
    m.firstFailure? s chunks.flatten = chunks.findSome? (m.firstFailure? s) := by
  induction chunks with
  | nil => rfl
  | cons chunk chunks ih =>
    rw [List.flatten_cons, List.findSome?_cons, ← ih]
    unfold firstFailure? pairs
    rw [List.flatMap_append, List.findSome?_append]
    cases (chunk.flatMap _).findSome? _ <;> rfl

/-- The first failing pair of all chunks is that of the first chunk that has one. -/
theorem exists_failsFirstAt {chunks : List (List Record)} {e : QueryError}
    (failing : m.firstFailure? s chunks.flatten = some e) : ∃ k, m.FailsFirstAt s chunks k e := by
  rw [firstFailure?_flatten, List.findSome?_eq_some_iff] at failing
  obtain ⟨passing, chunk, rest, rfl, fails, passes⟩ := failing
  refine ⟨passing.length, ?_, fun j hj => ?_⟩
  · simpa [failureAt] using fails
  · rw [failureAt, List.getElem?_append_left hj, List.getElem?_eq_getElem hj]
    exact passes _ (List.getElem_mem hj)

end Matcher

/-- Gathered results fail with the first failure among them. -/
theorem failure?_gather (others : Nat) (results : List (Except QueryError MatchResult)) :
    failure? (gather others results) = results.findSome? failure? := by
  rw [gather, failure?_map, failure?_mapM]
  rfl

/-! ## The chunk that decides the error -/

namespace Pool.Invariant

variable {m : Matcher} {chunks : List (List Record)} {s : Scope} {p : Pool}
  {results : List (Except QueryError MatchResult)}

/-- A finished task gave what its chunk gives, or it was skipped. -/
theorem result_of_finished (hp : p.Invariant m chunks s) (hr : p.Finished results) {i : Nat}
    {result : Except QueryError MatchResult} (h : results[i]? = some result) :
    chunks[i]?.map (m.resultOf s) = some result ∨ result = .ok .skipped := by
  have finished : p.tasks[i]? = some (.finished result) := by rw [result_at hr, h, Option.map_some]
  exact (hp.results i result finished).imp_right And.left

theorem length_results (hp : p.Invariant m chunks s) (hr : p.Finished results) :
    results.length = chunks.length := by
  rw [← hp.length, hr, List.length_map]

/-- The error is that of a chunk before which every chunk that fails was skipped. -/
theorem exists_failureAt_of_gather (stays : m.Stays s) (hp : p.Invariant m chunks s)
    (hr : p.Finished results) {e : QueryError}
    (failed : gather m.others.length results = .error e) :
    ∃ k, m.failureAt s chunks k = some e ∧
      ∀ j < k, m.failureAt s chunks j = none ∨ results[j]? = some (.ok .skipped) := by
  rw [← failure?_eq_some_iff, failure?_gather, List.findSome?_eq_some_iff] at failed
  obtain ⟨before, result, after, rfl, found, passed⟩ := failed
  rw [failure?_eq_some_iff] at found
  subst found
  refine ⟨before.length, ?_, fun j hj => ?_⟩
  · have at_k : (before ++ .error e :: after)[before.length]? = some (.error e) := by simp
    obtain given | skipped := hp.result_of_finished hr at_k
    · exact (Matcher.failureAt_eq_some_iff stays).mpr given
    · cases skipped
  · have at_j : (before ++ .error e :: after)[j]? = some before[j] :=
      (List.getElem?_append_left hj).trans (List.getElem?_eq_getElem hj)
    obtain given | skipped := hp.result_of_finished hr at_j
    · -- an earlier result is no failure, and it is what its chunk gives
      refine .inl (Option.eq_none_iff_forall_ne_some.mpr fun e' fails => ?_)
      rw [(Matcher.failureAt_eq_some_iff stays).mp fails] at given
      have none := passed _ (List.getElem_mem hj)
      rw [← Option.some.inj given] at none
      cases none
    · exact .inr (at_j.trans (congrArg some skipped))

/-- If the first chunk that fails was not skipped, its error is the one. -/
theorem gather_eq_of_ran (stays : m.Stays s) (hp : p.Invariant m chunks s) (hr : p.Finished results)
    {k : Nat} {e : QueryError} (first : m.FailsFirstAt s chunks k e)
    (ran : results[k]? ≠ some (.ok .skipped)) : gather m.others.length results = .error e := by
  have given := (Matcher.failureAt_eq_some_iff stays).mp first.fails
  have inside : k < results.length := by
    obtain ⟨chunk, hchunk, -⟩ := Option.map_eq_some_iff.mp given
    rw [hp.length_results hr]
    exact (List.getElem?_eq_some_iff.mp hchunk).1
  have result : results[k] = .error e := by
    obtain its | skipped := hp.result_of_finished hr (List.getElem?_eq_getElem inside)
    · exact Option.some.inj (its.symm.trans given)
    · exact absurd ((List.getElem?_eq_getElem inside).trans (congrArg some skipped)) ran
  obtain ⟨e', failed⟩ := mapM_error_of_mem (f := id) (List.getElem_mem inside) result
  have failed : gather m.others.length results = .error e' := congrArg (_ <$> ·) failed
  -- whatever chunk decides the error, none before it fails unless it is skipped
  obtain ⟨i, fails, earlier⟩ := hp.exists_failureAt_of_gather stays hr failed
  obtain before | rfl | after := Nat.lt_trichotomy i k
  · rw [first.before i before] at fails
    cases fails
  · cases fails.symm.trans first.fails
    exact failed
  · obtain none | skipped := earlier k after
    · rw [first.fails] at none
      cases none
    · exact absurd skipped ran

end Pool.Invariant

/-! ## Runs by a rule -/

namespace Pool

variable {m : Matcher} {chunks : List (List Record)} {s : Scope} {p q : Pool}
  {rule : Pool → Pool → Prop} {results : List (Except QueryError MatchResult)}

/-- Any number of steps that keep to a rule. -/
def RunsBy (m : Matcher) (chunks : List (List Record)) (rule : Pool → Pool → Prop) :
    Pool → Pool → Prop :=
  Relation.ReflTransGen fun p q => Step m chunks p q ∧ rule p q

/-- The results of a run that keeps to a rule and has come to its end. -/
def Gives (m : Matcher) (chunks : List (List Record)) (s : Scope) (rule : Pool → Pool → Prop)
    (results : List (Except QueryError MatchResult)) : Prop :=
  ∃ pool, RunsBy m chunks rule (.start chunks.length s) pool ∧ pool.Finished results

theorem RunsBy.runs (h : RunsBy m chunks rule p q) : Runs m chunks p q :=
  Relation.ReflTransGen.mono (fun _ _ => And.left) _ _ h

/-- A task that starts sees the flag: none begins to run once it is up. -/
def Prompt (p q : Pool) : Prop :=
  p.failed = true → ∀ i : Nat, q.tasks[i]? = some .running → p.tasks[i]? = some .running

/-- A task starts, or is skipped, only after those of the chunks before its own. -/
def InOrder (p q : Pool) : Prop :=
  ∀ i : Nat, p.tasks[i]? = some .waiting → q.tasks[i]? ≠ some .waiting →
    ∀ j < i, p.tasks[j]? ≠ some .waiting

/-! ## Tasks that start in order -/

theorem Step.waiting_before (step : Step m chunks p q) {i : Nat}
    (waiting : q.tasks[i]? = some .waiting) : p.tasks[i]? = some .waiting := by
  have unset {k : Nat} {task : ChunkTask} (new : task ≠ .waiting)
      (h : (p.tasks.set k task)[i]? = some .waiting) : p.tasks[i]? = some .waiting := by
    rw [List.getElem?_set] at h
    split at h
    · split at h
      · exact absurd (Option.some.inj h) new
      · cases h
    · exact h
  cases step with
  | start => exact unset (fun h => by cases h) waiting
  | skip => exact unset (fun h => by cases h) waiting
  | finish => exact unset (fun h => by cases h) waiting

/-- What a run in order keeps, where a chunk is the first one that fails: the tasks that wait are
the last ones, and the task of that chunk is not skipped. -/
structure OrderedInvariant (first : Nat) (p : Pool) : Prop where
  waiting : ∀ i j : Nat, i ≤ j → j < p.tasks.length → p.tasks[i]? = some .waiting →
    p.tasks[j]? = some .waiting
  ran : p.tasks[first]? ≠ some (.finished (.ok .skipped))

theorem start_orderedInvariant (count first : Nat) (s : Scope) :
    (Pool.start count s).OrderedInvariant first where
  waiting i j _ inside _ := by
    rw [start, List.length_replicate] at inside
    rw [start, List.getElem?_replicate, if_pos inside]
  ran h := by
    rw [start, List.getElem?_replicate] at h
    split at h <;> cases h

variable {first : Nat} {e : QueryError}

/-- One step in order keeps the invariant. -/
theorem Step.keepsOrder (stays : m.Stays s) (hp : p.Invariant m chunks s)
    (ho : p.OrderedInvariant first) (fails : m.FailsFirstAt s chunks first e)
    (step : Step m chunks p q) (inOrder : p.InOrder q) : q.OrderedInvariant first where
  waiting i j le inside waits := by
    rw [(step.keeps stays hp).length, ← hp.length] at inside
    have waited := ho.waiting i j le inside (step.waiting_before waits)
    by_contra started
    obtain lt | rfl := Nat.lt_or_eq_of_le le
    · exact inOrder j waited started i lt (step.waiting_before waits)
    · exact started waits
  ran := by
    -- only the step of that very task could make it a skipped one
    have other {i : Nat} {task : ChunkTask}
        (new : i = first → task ≠ .finished (.ok .skipped)) :
        (p.tasks.set i task)[first]? ≠ some (.finished (.ok .skipped)) := by
      intro h
      rw [List.getElem?_set] at h
      split at h
      · rename_i same
        split at h
        · exact new same (Option.some.inj h)
        · cases h
      · exact ho.ran h
    cases step with
    | start => exact other fun _ h => by cases h
    | @skip i waits failed =>
      refine other fun same _ => ?_
      subst same
      -- a task has failed, so it is one of a later chunk, but these wait
      obtain ⟨j, e', failure⟩ := hp.failed failed
      obtain given | ⟨skipped, -⟩ := hp.results j _ failure
      · have le : i ≤ j := Nat.le_of_not_lt fun lt => by
          cases (fails.before j lt).symm.trans ((Matcher.failureAt_eq_some_iff stays).mpr given)
        rw [ho.waiting i j le (List.getElem?_eq_some_iff.mp failure).1 waits] at failure
        cases failure
      · cases skipped
    | @finish i c running hc =>
      refine other fun same h => ?_
      subst same
      have given := (Matcher.failureAt_eq_some_iff stays).mp fails.fails
      rw [hc, Option.map_some] at given
      rw [hp.scope] at h
      have result : m.resultOf s c = .ok .skipped := ChunkTask.finished.inj h
      rw [result] at given
      cases given

/-- A run in order does not skip the first chunk that fails. -/
theorem RunsBy.keepsOrder (stays : m.Stays s) (hp : p.Invariant m chunks s)
    (ho : p.OrderedInvariant first) (fails : m.FailsFirstAt s chunks first e)
    (runs : RunsBy m chunks InOrder p q) : q.OrderedInvariant first := by
  induction runs with
  | refl => exact ho
  | tail runs step ih =>
    exact step.1.keepsOrder stays (RunsBy.runs runs |>.keeps stays hp) ih fails step.2

/-- A step that starts or finishes a task is in order if those before it do not wait. -/
theorem inOrder_set {i : Nat} {task : ChunkTask} {up : Bool} {t : Scope}
    (before : ∀ j < i, p.tasks[j]? ≠ some .waiting) :
    p.InOrder ⟨p.tasks.set i task, up, t⟩ := by
  intro j waits moved k hk
  by_cases same : i = j
  · exact before k (same ▸ hk)
  · rw [List.getElem?_set_ne same] at moved
    exact absurd waits moved

/-- Tasks that wait behind others can be run one after the other. -/
theorem runsBy_inOrder (done : List ChunkTask) (rest : List (List Record)) (up : Bool) (s : Scope)
    (behind : ∀ j, chunks[done.length + j]? = rest[j]?) (begun : .waiting ∉ done) :
    ∃ (results : List (Except QueryError MatchResult)) (up' : Bool) (t : Scope),
      RunsBy m chunks InOrder ⟨done ++ List.replicate rest.length .waiting, up, s⟩
        ⟨done ++ results.map .finished, up', t⟩ := by
  induction rest generalizing done up s with
  | nil => exact ⟨[], up, s, .refl⟩
  | cons chunk rest ih =>
    let outcome := Eval.exec (m.matchChunk chunk) s
    let finished : ChunkTask := .finished outcome.1
    obtain ⟨results, up', t, runs⟩ := ih (done ++ [finished]) (up || isFailure outcome.1) outcome.2
      (fun j => by simpa [Nat.add_assoc, Nat.add_comm 1] using behind (j + 1))
      (by simpa [finished] using begun)
    rw [List.append_assoc, List.append_assoc, List.singleton_append, List.singleton_append] at runs
    have at_done (task : ChunkTask) (tasks : List ChunkTask) :
        (done ++ task :: tasks)[done.length]? = some task := by simp
    have set_done (task new : ChunkTask) (tasks : List ChunkTask) :
        (done ++ task :: tasks).set done.length new = done ++ new :: tasks := by simp
    have before (tasks : List ChunkTask) : ∀ j < done.length,
        (done ++ tasks)[j]? ≠ some .waiting := by
      intro j hj waits
      rw [List.getElem?_append_left hj] at waits
      exact begun (List.mem_of_getElem? waits)
    let others := List.replicate rest.length ChunkTask.waiting
    let waiting : Pool := ⟨done ++ .waiting :: others, up, s⟩
    let running : Pool := ⟨done ++ .running :: others, up, s⟩
    have started : waiting.setTask done.length .running = running :=
      congrArg (Pool.mk · up s) (set_done ..)
    have ended : running.finish done.length outcome =
        ⟨done ++ finished :: others, up || isFailure outcome.1, outcome.2⟩ :=
      congrArg (Pool.mk · _ outcome.2) (set_done ..)
    rw [← ended] at runs
    refine ⟨outcome.1 :: results, up', t,
      .head (b := running) ⟨?_, ?_⟩ (.head ⟨.finish (at_done ..) (behind 0), ?_⟩ runs)⟩
    · rw [← started]
      exact .start (at_done ..)
    · rw [← started]
      exact inOrder_set (p := waiting) (before _)
    · exact inOrder_set (p := running) (before _)

/-- The tasks can be run in order. -/
theorem exists_gives_inOrder (m : Matcher) (chunks : List (List Record)) (s : Scope) :
    ∃ results, Gives m chunks s InOrder results := by
  obtain ⟨results, up, t, runs⟩ :=
    runsBy_inOrder (m := m) [] chunks false s (fun j => by rw [List.length_nil, Nat.zero_add])
      List.not_mem_nil
  exact ⟨results, _, runs, rfl⟩

/-! ## Every failing chunk can decide the error -/

/-- A task that waits while the flag is up is skipped. -/
def settled : ChunkTask → ChunkTask
  | .waiting => .finished (.ok .skipped)
  | task => task

theorem prompt_setTask {task : ChunkTask} (i : Nat) (idle : task ≠ .running) :
    p.Prompt (p.setTask i task) := by
  intro _ j running
  rw [setTask, List.getElem?_set] at running
  split at running
  · split at running
    · exact absurd (Option.some.inj running) idle
    · cases running
  · exact running

/-- Once the flag is up, all tasks that wait can be skipped. -/
theorem runsBy_settled (done rest : List ChunkTask) (s : Scope) :
    RunsBy m chunks Prompt ⟨done ++ rest, true, s⟩ ⟨done ++ rest.map settled, true, s⟩ := by
  induction rest generalizing done with
  | nil => exact .refl
  | cons task rest ih =>
    have next := ih (done ++ [settled task])
    rw [List.append_assoc, List.append_assoc, List.singleton_append, List.singleton_append] at next
    cases task with
    | waiting =>
      have skipped : (⟨done ++ .waiting :: rest, true, s⟩ : Pool).setTask done.length
          (settled .waiting) = ⟨done ++ settled .waiting :: rest, true, s⟩ := by simp [setTask]
      refine .head ?_ next
      rw [← skipped]
      exact ⟨.skip (by simp) rfl, prompt_setTask _ fun h => by cases h⟩
    | running => exact next
    | finished => exact next

/-- A chunk that fails decides the error if its task is the first to start and the others only start
when it has finished. -/
theorem gives_of_failure (stays : m.Stays s) {k : Nat} (fails : m.failureAt s chunks k = some e) :
    ∃ results, Gives m chunks s Prompt results ∧ gather m.others.length results = .error e := by
  obtain ⟨chunk, hchunk, fails⟩ :=
    Option.map_eq_some_iff.mp ((Matcher.failureAt_eq_some_iff stays).mp fails)
  have inside : k < chunks.length := (List.getElem?_eq_some_iff.mp hchunk).1
  let started := (Pool.start chunks.length s).setTask k .running
  let tasks := (List.replicate chunks.length ChunkTask.waiting).set k (.finished (.error e))
  let results : List (Except QueryError MatchResult) :=
    (List.replicate chunks.length (.ok .skipped)).set k (.error e)
  have outcome : Eval.exec (m.matchChunk chunk) s = (.error e, s) := by
    rw [Matcher.exec_matchChunk stays, ← Matcher.resultOf_eq stays, fails]
  have finish : Step m chunks started ⟨tasks, true, s⟩ := by
    have step := Step.finish (m := m) (p := started) (i := k) (by simp [started, setTask, start,
      inside]) hchunk
    rw [show started.scope = s from rfl, outcome] at step
    simpa [Pool.finish, started, setTask, start, isFailure, tasks] using step
  have settle : RunsBy m chunks Prompt ⟨tasks, true, s⟩ ⟨tasks.map settled, true, s⟩ :=
    runsBy_settled [] tasks s
  refine ⟨results, ⟨_, .head ⟨?_, ?_⟩ (.head ⟨finish, ?_⟩ settle), ?_⟩, ?_⟩
  · exact .start (by simp [start, inside])
  · exact fun up => by cases up
  · exact fun up => by cases up
  · simp [Finished, tasks, results, settled, List.map_set]
  · have failure : .error e ∈ results := List.mem_set (by simpa using inside) _
    obtain ⟨e', failed⟩ := mapM_error_of_mem (f := id) failure rfl
    have failed : gather m.others.length results = .error e' := congrArg (_ <$> ·) failed
    rw [failed]
    -- the only failure among the results is that of the chunk
    rw [← failure?_eq_some_iff, failure?_gather] at failed
    obtain ⟨result, member, its⟩ := List.exists_of_findSome?_eq_some failed
    rw [failure?_eq_some_iff] at its
    subst its
    obtain member | same := List.mem_or_eq_of_mem_set member
    · cases List.eq_of_mem_replicate member
    · exact same

end Pool

/-! ## Failed joins -/

/-- A join whose condition fails on a pair fails, however its tasks are run. It reports the error
of the first failing pair of a chunk, and any chunk before that has no failing pair or was skipped.
So it reports the error of the first failing pair of all, which a single chunk reports, unless the
chunk of that pair is skipped, as it never is if the tasks start in the order of their chunks. But
each chunk with a failing pair decides the error in some run. -/
theorem failed_join_reports (kind : JoinKind) (left right : View) {on : JoinMatch}
    (hon : Unassigned on.parts) {pairs? : Option (List (Nat × Nat))}
    (hp : on.meaning.pairs? left.header right.header = .ok pairs?) (env : Env) (s : Scope)
    {e : QueryError} :
    let condition := on.meaning.condition? left.header right.header pairs?
    let matcher := joinMatcher kind left right condition env
    let driving := drivingRecords kind left right
    let count := chunkCount env.settings.cpu driving.length (condition.any JoinCondition.assigns)
    let chunks := joinChunks kind left right count
    let answer (results : List (Except QueryError MatchResult)) :=
      joinedView kind left right <$> gather matcher.others.length results
    matcher.firstFailure? s driving = some e →
    (Eval.exec (joinInChunks kind left right condition env 1) s).1 = .error e ∧
    ∃ first, matcher.FailsFirstAt s chunks first e ∧
      (∀ rule results, Pool.Gives matcher chunks s rule results →
        (∃ k e', matcher.failureAt s chunks k = some e' ∧ answer results = .error e' ∧
          ∀ j < k, matcher.failureAt s chunks j = none ∨ results[j]? = some (.ok .skipped)) ∧
        (results[first]? ≠ some (.ok .skipped) → answer results = .error e)) ∧
      (∀ results, Pool.Gives matcher chunks s Pool.InOrder results → answer results = .error e) ∧
      ∀ k e', matcher.failureAt s chunks k = some e' →
        ∃ results, Pool.Gives matcher chunks s Pool.Prompt results ∧
          answer results = .error e' := by
  intro condition matcher driving count chunks answer failing
  have stays : matcher.Stays s := joinMatcher_stays hon hp env s
  have answered {results : List (Except QueryError MatchResult)} {e : QueryError}
      (h : gather matcher.others.length results = .error e) : answer results = .error e :=
    congrArg (joinedView kind left right <$> ·) h
  have single : matcher.resultOf s driving = .error e :=
    (Matcher.resultOf_eq_error_iff stays).mpr failing
  have whole : chunks.flatten = driving := flatten_joinChunks kind left right count
  rw [← whole] at single failing
  obtain ⟨first, fails⟩ := Matcher.exists_failsFirstAt failing
  have start := Pool.start_invariant matcher chunks s
  refine ⟨?_, first, fails, ?_, ?_, ?_⟩
  · rw [exec_joinInChunks stays 1]
    rw [whole] at single
    exact congrArg (joinedView kind left right <$> ·) single
  · intro rule results ⟨pool, runs, finished⟩
    have invariant := runs.runs.keeps stays start
    refine ⟨?_, fun ran => answered (invariant.gather_eq_of_ran stays finished fails ran)⟩
    have agrees := invariant.gathered stays finished
    rw [single] at agrees
    obtain ⟨e', failed⟩ := agrees
    obtain ⟨k, its, earlier⟩ := invariant.exists_failureAt_of_gather stays finished failed
    exact ⟨k, e', its, answered failed, earlier⟩
  · intro results ⟨pool, runs, finished⟩
    have invariant := runs.runs.keeps stays start
    have ordered := runs.keepsOrder stays start (Pool.start_orderedInvariant ..) fails
    refine answered (invariant.gather_eq_of_ran stays finished fails fun skipped => ordered.ran ?_)
    rw [Pool.Invariant.result_at finished, skipped]
    rfl
  · intro k e' its
    obtain ⟨results, gives, failed⟩ := Pool.gives_of_failure stays its
    exact ⟨results, gives, answered failed⟩

/-! ## Two tasks that fail -/

/-- Forty records with a 1, then forty with a 2. -/
def onesAndTwos : View :=
  .ofRows (.ofNames "l" ["a"]) (List.replicate 40 [.integer 1] ++ List.replicate 40 [.integer 2])

/-- A single record. -/
def oneZero : View :=
  .ofRows (.ofNames "r" ["b"]) [[.integer 0]]

/-- `CASE a WHEN 1 THEN x ELSE y END`, where there is no `x` and no `y`. -/
def failsByValue : JoinMatch :=
  .on (.case (some (.column none "a")) [.mk (.literal (.integer 1)) (.column none "x")]
    (some (.column none "y")))

/-- How the pairs of the two views are tested, given the number of cores. -/
def failsByValueMatcher (cpu : Nat) : Matcher :=
  joinMatcher .inner onesAndTwos oneZero
    (failsByValue.meaning.condition? onesAndTwos.header oneZero.header none)
    { settings := { cpu } }

theorem failsByValue_unassigned : Unassigned failsByValue.parts := by
  unfold Unassigned AllParts
  decide

/-- If the tasks start in order, `x` is missing. -/
theorem failed_join_reports_in_order :
    ∃ results, Pool.Gives (failsByValueMatcher 2) (joinChunks .inner onesAndTwos oneZero 2) {}
        Pool.InOrder results ∧
      joinedView .inner onesAndTwos oneZero <$> gather 1 results = .error (.noSuchField "x") := by
  obtain ⟨results, gives⟩ := Pool.exists_gives_inOrder (failsByValueMatcher 2)
    (joinChunks .inner onesAndTwos oneZero 2) {}
  obtain ⟨-, first, -, -, ordered, -⟩ := failed_join_reports .inner onesAndTwos oneZero
    failsByValue_unassigned rfl { settings := { cpu := 2 } } {} (e := .noSuchField "x") rfl
  exact ⟨results, gives, ordered results gives⟩

/-- Each of two tasks fails, with different errors. The second one decides the error if it finishes
before the first one starts, though a single chunk reports the first one. -/
theorem failed_join_reports_second_chunk :
    let condition := failsByValue.meaning.condition? onesAndTwos.header oneZero.header none
    let env : Env := { settings := { cpu := 2 } }
    Unassigned failsByValue.parts ∧
      chunkCount 2 onesAndTwos.records.length (condition.any JoinCondition.assigns) = 2 ∧
      (Eval.exec (joinInChunks .inner onesAndTwos oneZero condition env 1) {}).1 =
        .error (.noSuchField "x") ∧
      ∃ results, Pool.Gives (failsByValueMatcher 2) (joinChunks .inner onesAndTwos oneZero 2) {}
          Pool.Prompt results ∧
        joinedView .inner onesAndTwos oneZero <$> gather 1 results =
          .error (.noSuchField "y") := by
  intro condition env
  have stays : (failsByValueMatcher 2).Stays {} :=
    joinMatcher_stays failsByValue_unassigned rfl env {}
  have second : (failsByValueMatcher 2).failureAt {} (joinChunks .inner onesAndTwos oneZero 2) 1 =
      some (.noSuchField "y") := rfl
  obtain ⟨results, gives, failed⟩ := Pool.gives_of_failure stays second
  exact ⟨failsByValue_unassigned, rfl, rfl, results, gives,
    congrArg (joinedView .inner onesAndTwos oneZero <$> ·) failed⟩

end TableQuery
