import TableQuery.Proofs.Session.CursorActions

/-!
# Requests that fail

Every request of an application either is done or leaves no trace: the tables, the frames with all
that they declare, and the place of every cursor. A request that runs queries may only do so without
assignments, because those made before a failure remain.
-/

namespace TableQuery

open TableQuery.Language

/-! ## Actions that fail without a trace -/

namespace Engine

theorem set_getD (frames : List Frame) (i : Nat) :
    frames.set i (frames.getD i {}) = frames := by
  by_cases bound : i < frames.length
  · rw [← List.getElem_eq_getD {} (h := bound), List.set_getElem_self]
  · exact List.set_eq_of_length_le (by omega)

/-- Writing back the scope of a session as it was read changes nothing. -/
theorem setScope_scope (engine : Engine) (s : Session) :
    engine.setScope s (engine.scope s) = engine := by
  have written : engine.setScope s (engine.scope s)
      = engine.setFrames (s.references.zip (s.references.map engine.frame)) := rfl
  rw [written]
  induction s.references with
  | nil => rfl
  | cons i references ih =>
    have first : engine.frames.set i (engine.frame i) = engine.frames := set_getD engine.frames i
    have one_by_one : engine.setFrames ((i :: references).zip ((i :: references).map engine.frame))
        = ({ engine with frames := engine.frames.set i (engine.frame i) } : Engine).setFrames
          (references.zip (references.map engine.frame)) := rfl
    rw [one_by_one, first, ih]

end Engine

namespace Run

variable {α β : Type} {engine : Engine}

/-- The action only looks at the engine. -/
def ReadsOnly (x : Run α) (engine : Engine) : Prop :=
  (exec x engine).2 = engine

/-- The action leaves the engine alone if it fails. -/
def FailsCleanly (x : Run α) (engine : Engine) : Prop :=
  ∀ e left, exec x engine = (.error e, left) → left = engine

theorem ReadsOnly.bind {x : Run α} {f : α → Run β} (reads : x.ReadsOnly engine)
    (next : ∀ a, exec x engine = (.ok a, engine) → (f a).ReadsOnly engine) :
    (x >>= f).ReadsOnly engine := by
  rcases ran : exec x engine with ⟨e | a, left⟩ <;>
    obtain rfl : left = engine := by rw [ReadsOnly, ran] at reads; exact reads
  · rw [ReadsOnly, exec_bind_error ran]
  · rw [ReadsOnly, exec_bind_ok ran]
    exact next a ran

/-- What goes before must only read, because it is not undone when the rest fails. -/
theorem FailsCleanly.bind {x : Run α} {f : α → Run β} (reads : x.ReadsOnly engine)
    (next : ∀ a, exec x engine = (.ok a, engine) → (f a).FailsCleanly engine) :
    (x >>= f).FailsCleanly engine := by
  rcases ran : exec x engine with ⟨e | a, left⟩ <;>
    obtain rfl : left = engine := by rw [ReadsOnly, ran] at reads; exact reads
  · intro e' left' failed
    rw [exec_bind_error ran] at failed
    cases failed
    rfl
  · intro e' left' failed
    rw [exec_bind_ok ran] at failed
    exact next a ran e' left' failed

theorem FailsCleanly.bind_pure {x : Run α} (clean : x.FailsCleanly engine) (f : α → β) :
    (x >>= fun a => pure (f a)).FailsCleanly engine := by
  intro e left failed
  rcases ran : exec x engine with ⟨e' | a, left'⟩
  · rw [exec_bind_error ran] at failed
    cases failed
    exact clean _ _ ran
  · rw [exec_bind_ok ran] at failed
    cases failed

end Run

open Run

theorem Engine.updateCatalog_failsCleanly (f : Catalog → Except QueryError Catalog)
    (engine : Engine) : (updateCatalog f).FailsCleanly engine := by
  refine .bind rfl fun engine' got => ?_
  cases got
  refine .bind rfl fun catalog _ => ?_
  intro e left failed
  cases failed

namespace Session

variable (s : Session) (engine : Engine)

theorem read_readsOnly {α : Type} (f : Scope → Except QueryError α) :
    (s.read f).ReadsOnly engine := by
  rw [ReadsOnly, exec_read]

theorem update_failsCleanly (f : Scope → Except QueryError Scope) :
    (s.update f).FailsCleanly engine := by
  intro e left failed
  rw [exec_update] at failed
  split at failed
  · cases failed
  · cases failed
    rfl

theorem fetchCursor_failsCleanly (name : String) (position : FetchPosition) :
    (s.fetchCursor name position).FailsCleanly engine := by
  intro e left failed
  rw [exec_fetchCursor] at failed
  split at failed
  · cases failed
  · cases failed
    rfl

/-- An evaluation that leaves the scope alone leaves the engine alone. -/
theorem evaluate_readsOnly {α : Type} {f : Env → Eval α}
    (keeps : ∀ env, Eval.Same (· = engine.scope s) (f env) (f env)) :
    (s.evaluate f).ReadsOnly engine := by
  rw [ReadsOnly, exec_evaluate]
  exact ((keeps _).keeps rfl).symm ▸ engine.setScope_scope s

/-- Without assignments a query changes nothing, whether it succeeds or not. -/
theorem evaluate_query_readsOnly {q : Query} (unassigned : Unassigned q.parts) :
    (s.evaluate q.run).ReadsOnly engine :=
  s.evaluate_readsOnly engine fun _ => q.run_same (unassigned_agreement _) unassigned rfl

/-- Without assignments the queries of a text change nothing. -/
theorem execute_readsOnly {text : String}
    (unassigned : ∀ qs, parseQueries text = .ok qs → ∀ q ∈ qs, Unassigned q.parts) :
    (s.execute text).ReadsOnly engine := by
  refine .bind rfl fun qs parsed => ?_
  have read : parseQueries text = .ok qs := congrArg Prod.fst parsed
  refine s.evaluate_readsOnly engine fun env => .mapM fun q hq => ?_
  exact q.run_same (unassigned_agreement _) (unassigned qs read q hq) rfl

theorem query_readsOnly {text : String}
    (unassigned : ∀ qs, parseQueries text = .ok qs → ∀ q ∈ qs, Unassigned q.parts) :
    (s.query text).ReadsOnly engine := by
  refine .bind (s.execute_readsOnly engine unassigned) fun views _ => ?_
  match views with
  | [_] | [] | _ :: _ :: _ => rfl

end Session

/-! ## Requests -/

/-- What an application can ask of an engine and a session, other than to run a query. -/
inductive Request where
  | registerTable (name : String) (columns : List String) (rows : List (List Value))
  | setStdin (columns : List String) (rows : List (List Value))
  | declareVariable (name : String) (value : Value)
  | setVariable (name : String) (value : Value)
  | disposeVariable (name : String)
  | declareView (name : String) (view : View)
  | replaceView (name : String) (view : View)
  | disposeView (name : String)
  | createView (name text : String)
  | declareCursor (name text : String)
  | declarePseudoCursor (name : String) (values : List Value)
  | openCursor (name : String)
  | fetchCursor (name : String) (position : FetchPosition)
  | closeCursor (name : String)
  | disposeCursor (name : String)
  | declareFunction (f : UserFunction)

namespace Request

/-- Does what is asked. -/
def run (s : Session) : Request → Run Unit
  | registerTable name columns rows => Engine.registerTable name columns rows
  | setStdin columns rows => Engine.setStdin columns rows
  | declareVariable name value => s.declareVariable name value
  | setVariable name value => s.setVariable name value
  | disposeVariable name => s.disposeVariable name
  | declareView name view => s.declareView name view
  | replaceView name view => s.replaceView name view
  | disposeView name => s.disposeView name
  | createView name text => s.createView name text
  | declareCursor name text => s.declareCursor name text
  | declarePseudoCursor name values => s.declarePseudoCursor name values
  | openCursor name => s.openCursor name
  | fetchCursor name position => do
    let _ ← s.fetchCursor name position
  | closeCursor name => s.closeCursor name
  | disposeCursor name => s.disposeCursor name
  | declareFunction f => s.declareFunction f

/-- The queries that run on behalf of a request. -/
def queries (engine : Engine) (s : Session) : Request → List Query
  | createView _ text => (parseQueries text).toOption.getD []
  | openCursor name => ((engine.scope s).cursorQuery name).toOption.toList
  | _ => []

/-- A failed request leaves no trace: for every engine, every session and every request whose
queries assign no variables, if the request fails then the tables, all frames and all that they
declare, cursors with their rows and places included, are as they were. -/
theorem failed_leaves_engine (engine : Engine) (s : Session) (request : Request)
    (unassigned : ∀ q ∈ request.queries engine s, Unassigned q.parts) {e : QueryError}
    (failed : (Run.exec (request.run s) engine).1 = .error e) :
    (Run.exec (request.run s) engine).2 = engine := by
  suffices clean : (request.run s).FailsCleanly engine from clean e _ (Prod.ext failed rfl)
  cases request with
  | registerTable name columns rows =>
    rw [run, Engine.registerTable]
    exact Engine.updateCatalog_failsCleanly _ engine
  | setStdin columns rows =>
    rw [run, Engine.setStdin]
    exact Engine.updateCatalog_failsCleanly _ engine
  | declareVariable name value =>
    rw [run, Session.declareVariable]
    exact s.update_failsCleanly engine _
  | setVariable name value =>
    rw [run, Session.setVariable]
    exact s.update_failsCleanly engine _
  | disposeVariable name =>
    rw [run, Session.disposeVariable]
    exact s.update_failsCleanly engine _
  | declareView name view =>
    rw [run, Session.declareView]
    exact s.update_failsCleanly engine _
  | replaceView name view =>
    rw [run, Session.replaceView]
    exact s.update_failsCleanly engine _
  | disposeView name =>
    rw [run, Session.disposeView]
    exact s.update_failsCleanly engine _
  | createView name text =>
    have reads : (s.query text).ReadsOnly engine := by
      refine s.query_readsOnly engine fun qs parsed q hq => unassigned q ?_
      rw [queries, parsed]
      exact hq
    exact .bind reads fun v _ => s.update_failsCleanly engine _
  | declareCursor name text => exact .bind rfl fun q _ => s.update_failsCleanly engine _
  | declarePseudoCursor name values =>
    rw [run, Session.declarePseudoCursor]
    exact s.update_failsCleanly engine _
  | openCursor name =>
    -- Opening can still be refused when the query has run.
    refine .bind (s.read_readsOnly engine _) fun q asked => ?_
    have query : (engine.scope s).cursorQuery name = .ok q := by
      rw [Session.exec_read] at asked
      exact congrArg Prod.fst asked
    have reads : (s.evaluate q.run).ReadsOnly engine := by
      refine s.evaluate_query_readsOnly engine (unassigned q ?_)
      rw [queries, query]
      exact List.mem_singleton_self q
    exact .bind reads fun v _ => s.update_failsCleanly engine _
  | fetchCursor name position => exact (s.fetchCursor_failsCleanly engine name position).bind_pure _
  | closeCursor name =>
    rw [run, Session.closeCursor]
    exact s.update_failsCleanly engine _
  | disposeCursor name =>
    rw [run, Session.disposeCursor]
    exact s.update_failsCleanly engine _
  | declareFunction f =>
    rw [run, Session.declareFunction]
    exact s.update_failsCleanly engine _

/-- All columns of a table that is not there. -/
def absentRows : Query :=
  .mk false [] (.select false [.mk .allColumns none] [.named "t" none] none [] none) [] none .all

/-- An engine with a closed cursor over a table that is not there. -/
def absentTable : Engine :=
  { frames := [{ cursors := ({} : NameMap Cursor).insert "c" (.declared "c" absentRows none) }] }

/-- A cursor over a table that is not there cannot be opened, and stays as it is. -/
theorem failed_leaves_engine_of_absentTable :
    ∃ e, (Run.exec (run ⟨0, []⟩ (.openCursor "c")) absentTable).1 = .error e ∧
      (Run.exec (run ⟨0, []⟩ (.openCursor "c")) absentTable).2 = absentTable := by
  have refused :
      (Run.exec (run ⟨0, []⟩ (.openCursor "c")) absentTable).1.toOption.isNone = true := by
    decide +kernel
  have unassigned : ∀ q ∈ queries absentTable ⟨0, []⟩ (.openCursor "c"), Unassigned q.parts := by
    intro q hq
    obtain rfl : q = absentRows := List.mem_singleton.mp hq
    intro p hp
    obtain rfl : p = .expr .allColumns := List.mem_singleton.mp hp
    rfl
  cases ran : (Run.exec (run ⟨0, []⟩ (.openCursor "c")) absentTable).1 with
  | ok u =>
    rw [ran] at refused
    cases refused
  | error e => exact ⟨e, rfl, failed_leaves_engine absentTable ⟨0, []⟩ _ unassigned ran⟩

end Request

end TableQuery
