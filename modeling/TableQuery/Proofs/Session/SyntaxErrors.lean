import TableQuery.Proofs.Evaluation.QueryErrors
import TableQuery.Proofs.Evaluation.Run
import TableQuery.Proofs.Session.FailedRequests

/-!
# What a syntax error leaves

A text that is no list of queries is refused before anything runs. A text of several queries is
refused as well where only one is expected, but only after all of them ran, and what they assigned
remains.
-/

namespace TableQuery

open TableQuery.Language Run

namespace Session

variable (s : Session) (engine : Engine) {text : String}

/-! ## Texts of queries -/

theorem exec_execute_of_error {e : QueryError} (unparsed : parseQueries text = .error e) :
    exec (s.execute text) engine = (.error e, engine) := by
  have refused : exec (parseQueries text : Run (List Query)) engine = (.error e, engine) := by
    rw [exec_lift, unparsed]
  rw [execute, exec_bind_error refused]

theorem exec_execute_of_ok {qs : List Query} (parsed : parseQueries text = .ok qs) :
    exec (s.execute text) engine =
      exec (s.evaluate fun env => qs.mapM fun q => q.run env) engine := by
  have read : exec (parseQueries text : Run (List Query)) engine = (.ok qs, engine) := by
    rw [exec_lift, parsed]
  rw [execute, exec_bind_ok read]

/-- When queries run, a syntax error only comes from a function of the session. -/
theorem evaluate_understood (qs : List Query) : Understood (engine.scope s).AnswersWith
    (exec (s.evaluate fun env => qs.mapM fun q => q.run env) engine).1 := by
  rw [exec_evaluate]
  have queries : Eval.Understood (engine.scope s).AnswersWith
      (qs.mapM fun q => q.run ({ settings := engine.settings } : Env)) :=
    .mapM fun q _ => q.run_understood _
  exact (queries _ (engine.scope s).understood_answersWith).2.1

theorem length_of_execute {qs : List Query} (parsed : parseQueries text = .ok qs)
    {views : List View} {left : Engine}
    (ran : exec (s.execute text) engine = (.ok views, left)) : views.length = qs.length := by
  rw [s.exec_execute_of_ok engine parsed, exec_evaluate] at ran
  have results := congrArg Prod.fst ran
  exact Eval.length_of_exec_mapM (Prod.ext results rfl)

/-- Queries leave every frame as it was, but for the values of variables to which one of them
assigns. -/
theorem execute_keptBut {qs : List Query} (parsed : parseQueries text = .ok qs) (i : Nat) :
    (engine.frame i).KeptBut (assignedNames (qs.flatMap Query.parts))
      ((exec (s.execute text) engine).2.frame i) := by
  rw [s.exec_execute_of_ok engine parsed, exec_evaluate]
  have agreement := keptBut_agreement (qs.flatMap Query.parts) (engine.scope s)
  refine engine.frame_setScope s (Frame.KeptBut.refl _) ?_ i
  have unmoved : List.Forall₂ (Frame.KeptBut (assignedNames (qs.flatMap Query.parts)))
      (engine.scope s).frames (engine.scope s).frames :=
    List.forall₂_same.mpr fun frame _ => .refl _ frame
  have queries (env : Env) := Eval.Same.mapM fun q (hq : q ∈ qs) => q.run_same agreement
    (fun p hp => List.mem_flatMap.mpr ⟨q, hq, hp⟩) (rfl : env = env)
  exact (queries _).keeps unmoved

/-! ## Asking for one query -/

variable {s engine} {left : Engine}

theorem exec_query_of_error {e : QueryError}
    (failed : exec (s.execute text) engine = (.error e, left)) :
    exec (s.query text) engine = (.error e, left) :=
  exec_bind_error failed _

theorem exec_query_of_one {v : View} (ran : exec (s.execute text) engine = (.ok [v], left)) :
    exec (s.query text) engine = (.ok v, left) :=
  exec_bind_ok ran _

/-- Several queries, or none, are refused after they ran. -/
theorem exec_query_of_several {views : List View} (several : views.length ≠ 1)
    (ran : exec (s.execute text) engine = (.ok views, left)) :
    exec (s.query text) engine =
      (.error (.badSyntax (.statementCount views.length) 0), left) := by
  rw [query, exec_bind_ok ran]
  match views with
  | [_] => exact absurd rfl several
  | [] | _ :: _ :: _ => rfl

/-! ## Syntax errors -/

/-- The text is no list of queries, which is found out before any of them runs. -/
def Refused (text : String) (e : QueryError) (engine left : Engine) : Prop :=
  parseQueries text = .error e ∧ left = engine

/-- The text is a list of queries, but not of one. All of them ran, and `left` is what they leave.
In each frame only the values of variables to which one of them assigns can be others. -/
def RanAll (s : Session) (text : String) (e : QueryError) (engine left : Engine) : Prop :=
  ∃ qs views, parseQueries text = .ok qs ∧ qs.length ≠ 1 ∧
    exec (s.execute text) engine = (.ok views, left) ∧
    e = .badSyntax (.statementCount qs.length) 0 ∧
    ∀ i, (engine.frame i).KeptBut (assignedNames (qs.flatMap Query.parts)) (left.frame i)

section

variable {e : QueryError} (syntactic : e.isSyntax = true)
  (unanswered : ¬(engine.scope s).AnswersWith e)

include syntactic unanswered

theorem execute_syntax_error_iff :
    exec (s.execute text) engine = (.error e, left) ↔ Refused text e engine left := by
  cases parsed : parseQueries text with
  | error e' =>
    rw [s.exec_execute_of_error engine parsed, Refused, parsed]
    simp [eq_comm]
  | ok qs =>
    refine ⟨fun failed => ?_, fun refused => ?_⟩
    · rw [s.exec_execute_of_ok engine parsed] at failed
      have error := congrArg Prod.fst failed
      exact absurd (s.evaluate_understood engine qs e error syntactic) unanswered
    · rw [Refused, parsed] at refused
      cases refused.1

theorem query_syntax_error_iff :
    exec (s.query text) engine = (.error e, left) ↔
      Refused text e engine left ∨ s.RanAll text e engine left := by
  rw [← execute_syntax_error_iff syntactic unanswered]
  constructor
  · intro failed
    rcases ran : exec (s.execute text) engine with ⟨e' | views, left'⟩
    · rw [exec_query_of_error ran] at failed
      cases failed
      exact .inl rfl
    · cases parsed : parseQueries text with
      | error e' =>
        rw [s.exec_execute_of_error engine parsed] at ran
        cases ran
      | ok qs =>
        have count := s.length_of_execute engine parsed ran
        have kept := s.execute_keptBut engine parsed
        by_cases one : views.length = 1
        · obtain ⟨v, rfl⟩ := List.length_eq_one_iff.mp one
          rw [exec_query_of_one ran] at failed
          cases failed
        · rw [exec_query_of_several one ran] at failed
          cases failed
          rw [ran] at kept
          rw [count] at one ⊢
          exact .inr ⟨qs, views, parsed, one, ran, rfl, kept⟩
  · rintro (failed | ⟨qs, views, parsed, several, ran, rfl, -⟩)
    · exact exec_query_of_error failed
    · rw [← s.length_of_execute engine parsed ran] at several ⊢
      exact exec_query_of_several several ran

end

/-- What a syntax error leaves: for every engine, session and text, and every syntax error with
which no function of the session answers, running the text gives the error exactly if the text is no
list of queries for that reason, and then nothing has happened. Asking for one query gives the error
in this case, too, and otherwise exactly if it says that there is another number of queries, and all
of them succeed. Then they did run: what they assigned remains. -/
theorem syntax_error_leaves (engine : Engine) (s : Session) (text : String) {e : QueryError}
    (syntactic : e.isSyntax = true) (unanswered : ¬(engine.scope s).AnswersWith e)
    (left : Engine) :
    (exec (s.execute text) engine = (.error e, left) ↔ Refused text e engine left) ∧
    (exec (s.query text) engine = (.error e, left) ↔
      Refused text e engine left ∨ s.RanAll text e engine left) :=
  ⟨execute_syntax_error_iff syntactic unanswered, query_syntax_error_iff syntactic unanswered⟩

/-- An engine with a variable whose value is 0. -/
def zeroed : Engine :=
  { frames := [{ vars := ({} : NameMap Value).insert "x" (.integer 0) }] }

/-- Two queries are refused where one is expected, but the first of them did assign. -/
theorem syntax_error_leaves_assigned :
    ∃ left, exec (query ⟨0, []⟩ "SELECT @x := 5; SELECT 2") zeroed =
        (.error (.badSyntax (.statementCount 2) 0), left) ∧
      (zeroed.scope ⟨0, []⟩).variableValue "x" = .ok (.integer 0) ∧
      ((left.scope ⟨0, []⟩).variableValue "x").toOption.bind Value.toInteger? = some 5 := by
  have unanswered (e : QueryError) : ¬(zeroed.scope ⟨0, []⟩).AnswersWith e := by
    rintro ⟨name, f, declared, -⟩
    cases declared
  have count : (parseQueries "SELECT @x := 5; SELECT 2").toOption.map List.length = some 2 := by
    decide +kernel
  have succeeds : (exec (execute ⟨0, []⟩ "SELECT @x := 5; SELECT 2") zeroed).1.toOption.isSome
      = true := by
    decide +kernel
  have value : (((exec (execute ⟨0, []⟩ "SELECT @x := 5; SELECT 2") zeroed).2.scope
      ⟨0, []⟩).variableValue "x").toOption.bind Value.toInteger? = some 5 := by
    decide +kernel
  rcases ran : exec (execute ⟨0, []⟩ "SELECT @x := 5; SELECT 2") zeroed with ⟨e | views, left⟩ <;>
    rw [ran] at succeeds value
  · cases succeeds
  · cases parsed : parseQueries "SELECT @x := 5; SELECT 2" with
    | error e =>
      rw [parsed] at count
      cases count
    | ok qs =>
      rw [parsed] at count
      have two : qs.length = 2 := Option.some.inj count
      have kept := execute_keptBut ⟨0, []⟩ zeroed parsed
      rw [ran] at kept
      have leaves := syntax_error_leaves zeroed ⟨0, []⟩ "SELECT @x := 5; SELECT 2"
        (e := .badSyntax (.statementCount 2) 0) rfl (unanswered _) left
      refine ⟨left, leaves.2.mpr (.inr ?_), rfl, value⟩
      exact ⟨qs, views, parsed, by omega, ran, by rw [two], kept⟩

end Session

end TableQuery
