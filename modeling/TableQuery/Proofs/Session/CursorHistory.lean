import TableQuery.Proofs.Session.CursorActions

/-!
# Histories of cursors

Whatever a session does with its cursors and blocks, each cursor is closed or is what its moves since
it was opened make of the rows over which it was opened. What a cursor looks like at any time is
thereby a question about one list of moves.
-/

namespace TableQuery

/-! ## Histories -/

/-- The rows over which a cursor was opened, and its moves since with what they gave. -/
structure CursorHistory where
  rows : List (List Value)
  positions : List FetchPosition := []
  given : List (Option (List Value)) := []

/-- The history of the cursor of a name in a frame after one more event. -/
def CursorHistory.record (frame : Nat) (name : String) (h? : Option CursorHistory) :
    CursorEvent → Option CursorHistory
  | .opened i other rows =>
    if i = frame ∧ Text.upper other = Text.upper name then some { rows } else h?
  | .fetched i other position row =>
    if i = frame ∧ Text.upper other = Text.upper name then
      h?.map fun h => { h with positions := h.positions ++ [position], given := h.given ++ [row] }
    else
      h?

/-- The history of the cursor of a name in a frame. -/
def CursorRun.history (m : CursorRun) (frame : Nat) (name : String) : Option CursorHistory :=
  m.log.foldl (CursorHistory.record frame name) none

/-- The cursor is closed, or it is what its moves made of its rows. -/
def Cursor.Follows (c : Cursor) (h? : Option CursorHistory) : Prop :=
  ∀ state, c.state? = some state → ∃ h, h? = some h ∧
    ({ rows := h.rows } : OpenCursor).moves h.positions = (state, h.given)

/-- An event changes the history of its own cursor only. -/
theorem CursorChange.record_other {i : Nat} {name : String} {old new : Option Cursor}
    {events : List CursorEvent} (change : CursorChange i name old new events) {frame : Nat}
    {other : String} (differs : ¬ (i = frame ∧ Text.upper name = Text.upper other))
    (h? : Option CursorHistory) :
    events.foldl (CursorHistory.record frame other) h? = h? := by
  cases change with
  | declared | closed | disposed => rfl
  | pseudo | opened | fetched => exact if_neg differs

/-- A cursor that is changed follows its history, which goes on with the change. -/
theorem CursorChange.follows {i : Nat} {name other : String} {old new : Option Cursor}
    {events : List CursorEvent} (change : CursorChange i name old new events)
    (same : Text.upper name = Text.upper other) {h? : Option CursorHistory}
    (before : ∀ c, old = some c → c.Follows h?) :
    ∀ c, new = some c → c.Follows (events.foldl (CursorHistory.record i other) h?) := by
  intro c hc state isOpen
  cases change with
  | declared | closed =>
    cases hc
    cases isOpen
  | disposed => cases hc
  | pseudo rows | opened rows =>
    cases hc
    cases isOpen
    exact ⟨{ rows }, if_pos ⟨rfl, same⟩, rfl⟩
  | @fetched d last wasOpen position =>
    obtain ⟨h, rfl, moved⟩ := before d rfl last wasOpen
    cases hc
    refine ⟨_, if_pos ⟨rfl, same⟩, ?_⟩
    have state : state = (last.fetch position).1 := by
      cases d <;> cases isOpen <;> rfl
    rw [OpenCursor.moves_append, moved, state]
    rfl

/-! ## Steps and runs -/

/-- A new frame holds nothing, as there was nothing at its reference. -/
theorem Engine.frame_append (engine : Engine) (i : Nat) :
    ({ engine with frames := engine.frames ++ [{}] } : Engine).frame i = engine.frame i := by
  rw [Engine.frame, Engine.frame, List.getD_eq_getElem?_getD, List.getD_eq_getElem?_getD]
  rcases Nat.lt_trichotomy i engine.frames.length with less | same | more
  · rw [List.getElem?_append_left less]
  · subst same
    rw [List.getElem?_append_right (Nat.le_refl _), Nat.sub_self, List.getElem?_eq_none (Nat.le_refl _)]
    rfl
  · rw [List.getElem?_eq_none (by rw [List.length_append]; exact more),
      List.getElem?_eq_none (Nat.le_of_lt more)]

namespace CursorRun

variable {m n : CursorRun}

/-- The frames of the session are frames of the engine, and its cursors follow their histories. -/
structure Consistent (m : CursorRun) : Prop where
  hosts : m.engine.Hosts m.session
  follows : ∀ i ∈ m.session.references, ∀ name c,
    (m.engine.frame i).cursors.get? name = some c → c.Follows (m.history i name)

theorem start_consistent (engine : Engine) : (start engine).Consistent where
  hosts := ⟨List.nodup_cons.mpr ⟨List.not_mem_nil, List.nodup_nil⟩, fun i hi => by
    rw [List.mem_singleton.mp hi]
    simp [start]⟩
  follows i hi name c held := by
    rw [List.mem_singleton.mp hi, Engine.frame, start] at held
    simp at held

theorem references_exitBlock (s : Session) : s.exitBlock.references.Sublist s.references := by
  obtain ⟨innermost, outer⟩ := s
  cases outer with
  | nil => exact List.Sublist.refl _
  | cons => exact List.sublist_cons_self _ _

/-- A step keeps cursors and histories together. -/
theorem Steps.consistent (h : m.Steps n) (hm : m.Consistent) : n.Consistent := by
  cases h with
  | kept length cursors =>
    refine ⟨hm.hosts.of_length length, fun i hi name c held => ?_⟩
    rw [cursors] at held
    exact hm.follows i hi name c held
  | @changed engine i name c? cursors events mine change here entries =>
    refine ⟨hm.hosts.of_length here.length, fun j hj other c held => ?_⟩
    have history : ({ m with engine, log := m.log ++ events } : CursorRun).history j other =
        events.foldl (CursorHistory.record j other) (m.history j other) := List.foldl_append
    rw [history]
    by_cases sameFrame : i = j
    · subst sameFrame
      rw [here.here, entries] at held
      by_cases sameName : Text.upper other = Text.upper name
      · rw [if_pos sameName] at held
        refine change.follows sameName.symm (fun d hd => ?_) c held
        rw [NameMap.get?_of_upper _ sameName.symm] at hd
        exact hm.follows i mine other d hd
      · rw [if_neg sameName] at held
        rw [change.record_other fun same => sameName same.2.symm]
        exact hm.follows i hj other c held
    · rw [here.others j fun same => sameFrame same.symm] at held
      rw [change.record_other fun same => sameFrame same.1]
      exact hm.follows j hj other c held
  | entered =>
    refine ⟨⟨?_, fun i hi => ?_⟩, fun i hi name c held => ?_⟩
    · refine List.nodup_cons.mpr ⟨fun old => ?_, hm.hosts.distinct⟩
      exact Nat.lt_irrefl _ (hm.hosts.present _ old)
    · rw [List.length_append]
      rcases List.mem_cons.mp hi with rfl | hi
      · exact Nat.lt_succ_self _
      · exact Nat.lt_succ_of_lt (hm.hosts.present i hi)
    · rw [Engine.frame_append] at held
      rcases List.mem_cons.mp hi with rfl | hi
      · rw [Engine.frame, List.getD_eq_getElem?_getD, List.getElem?_eq_none (Nat.le_refl _)] at held
        cases held
      · exact hm.follows i hi name c held
  | left =>
    have fewer := references_exitBlock m.session
    exact ⟨⟨hm.hosts.distinct.sublist fewer, fun i hi => hm.hosts.present i (fewer.subset hi)⟩,
      fun i hi => hm.follows i (fewer.subset hi)⟩

theorem run_consistent (hm : m.Consistent) (actions : List CursorAction) :
    (m.run actions).Consistent := by
  induction actions generalizing m with
  | nil => exact hm
  | cons action actions ih => exact ih ((steps_step hm.hosts action).consistent hm)

/-! ## Pseudo cursors -/

/-- A pseudo cursor with the given rows. -/
def IsPseudo (m : CursorRun) (i : Nat) (name : String) (rows : List (List Value)) : Prop :=
  ∃ declaredName state, (m.engine.frame i).cursors.get? name = some (.pseudo declaredName state) ∧
    state.rows = rows

theorem Steps.isPseudo (h : m.Steps n) {i : Nat} {name : String} {rows : List (List Value)}
    (pseudo : m.IsPseudo i name rows) : n.IsPseudo i name rows := by
  obtain ⟨declaredName, state, held, rfl⟩ := pseudo
  cases h with
  | kept _ cursors => exact ⟨declaredName, state, (cursors i).symm ▸ held, rfl⟩
  | entered => exact ⟨declaredName, state, (Engine.frame_append ..).symm ▸ held, rfl⟩
  | left => exact ⟨declaredName, state, held, rfl⟩
  | @changed engine j other c? cursors events _ change here entries =>
    by_cases sameFrame : i = j
    · subst sameFrame
      by_cases sameName : Text.upper name = Text.upper other
      · rw [NameMap.get?_of_upper _ sameName] at held
        rw [held] at change
        cases change with
        | @fetched _ _ isOpen position =>
          cases isOpen
          refine ⟨declaredName, _, ?_, state.rows_fetch position⟩
          rw [here.here, entries, if_pos sameName]
          rfl
      · refine ⟨declaredName, state, ?_, rfl⟩
        rw [here.here, entries, if_neg sameName]
        exact held
    · exact ⟨declaredName, state, (here.others i sameFrame).symm ▸ held, rfl⟩

/-- A pseudo cursor stays one, over the same rows. -/
theorem run_isPseudo (hm : m.Consistent) {i : Nat} {name : String} {rows : List (List Value)}
    (pseudo : m.IsPseudo i name rows) (actions : List CursorAction) :
    (m.run actions).IsPseudo i name rows := by
  induction actions generalizing m with
  | nil => exact pseudo
  | cons action actions ih =>
    have steps := steps_step hm.hosts action
    exact ih (steps.consistent hm) (steps.isPseudo pseudo)

end CursorRun

/-! ## What the session answers -/

namespace Session

variable {s : Session} {engine : Engine} {name : String} {c : Cursor}

theorem exec_isCursorOpen (found : (engine.scope s).cursor name = .ok c) :
    Run.exec (s.isCursorOpen name) engine = (.ok c.state?.isSome, engine) := by
  rw [isCursorOpen, exec_read, Scope.isCursorOpen, found]
  rfl

theorem exec_isCursorInRange (found : (engine.scope s).cursor name = .ok c) {state : OpenCursor}
    (isOpen : c.state? = some state) :
    Run.exec (s.isCursorInRange name) engine = (.ok state.inRange, engine) := by
  have stateOk : c.state = .ok state := by rw [Cursor.state, isOpen]
  rw [isCursorInRange, exec_read, Scope.isCursorInRange, found]
  show ((c.state >>= fun _ => _), engine) = _
  rw [stateOk]
  rfl

/-- A pseudo cursor can not be opened, closed or disposed of. -/
theorem exec_refused {declaredName : String} {state : OpenCursor}
    (found : (engine.scope s).cursor name = .ok (.pseudo declaredName state)) :
    Run.exec (s.openCursor name) engine = (.error (.pseudoCursor declaredName), engine) ∧
    Run.exec (s.closeCursor name) engine = (.error (.pseudoCursor declaredName), engine) ∧
    Run.exec (s.disposeCursor name) engine = (.error (.pseudoCursor declaredName), engine) := by
  refine ⟨?_, ?_, ?_⟩
  · have asks := s.exec_read (fun scope => scope.cursorQuery name) engine
    rw [Scope.cursorQuery, found] at asks
    exact Run.exec_bind_error asks _
  · rw [closeCursor, exec_update, Scope.closeCursor, found]
    rfl
  · rw [disposeCursor, exec_update, Scope.disposeCursor, found]
    rfl

/-- Moves of an open cursor give what they give on its state. -/
theorem exec_fetches (hosts : engine.Hosts s) (found : (engine.scope s).cursor name = .ok c)
    {state : OpenCursor} (isOpen : c.state? = some state) (positions : List FetchPosition) :
    (Run.exec (positions.mapM (s.fetchCursor name)) engine).1 = .ok (state.moves positions).2 := by
  induction positions generalizing engine c state with
  | nil => rfl
  | cons position positions ih =>
    obtain ⟨i, holds, entry⟩ := Engine.cursor_eq_ok_iff.mp found
    obtain ⟨scope, updated, changed⟩ := Engine.setCursor_changes hosts holds
      (c.withState (state.fetch position).1)
    have moved : Run.exec (s.fetchCursor name position) engine
        = (.ok (state.fetch position).2, engine.setScope s scope) := by
      rw [exec_fetchCursor, Scope.fetchCursor_of_open found isOpen updated]
    have stays : (c.withState (state.fetch position).1).state? = some (state.fetch position).1 := by
      cases c <;> rfl
    have rest := ih (hosts.of_length changed.length) (changed.cursor_eq_ok holds) stays
    rw [List.mapM_cons, Run.exec_bind_ok moved, Run.exec_bind]
    rcases fetched : Run.exec (positions.mapM (s.fetchCursor name)) (engine.setScope s scope)
      with ⟨_ | rows, left⟩
    · rw [fetched] at rest
      cases rest
    · rw [fetched] at rest
      cases rest
      rfl

end Session

/-! ## All runs -/

/-- Whatever a new session does with its cursors and blocks: a cursor is closed, or it is open over
the rows of its last opening, stands at a row or directly outside, and answers whether it is in range
as its last fetch since then did, if there was one. Pseudo cursors are open, refuse to be opened,
closed and disposed of, and stay as long as their frame. Fetching the next row of a cursor that was
just opened gives the rows of its query one after the other, and none from then on. -/
theorem cursors_follow_their_histories (engine : Engine) (actions : List CursorAction) :
    let m := (CursorRun.start engine).run actions
    (∀ i ∈ m.session.references, ∀ name c, (m.engine.frame i).cursors.get? name = some c →
      (∃ declaredName query, c = .declared declaredName query none) ∨
      ∃ state h, c.state? = some state ∧ m.history i name = some h ∧ state.rows = h.rows ∧
        (OpenCursor.Fits h.rows →
          state.Placed ∧ state.inRange = OpenCursor.rangeAfter h.given ∧
          ∀ n, h.positions = List.replicate n .next →
            h.given = (List.range n).map fun k => h.rows[k]?)) ∧
    (∀ name c, (m.engine.scope m.session).cursor name = .ok c →
      (∃ i ∈ m.session.references, (m.engine.frame i).cursors.get? name = some c) ∧
      Run.exec (m.session.isCursorOpen name) m.engine = (.ok c.state?.isSome, m.engine) ∧
      (∀ state, c.state? = some state →
        Run.exec (m.session.isCursorInRange name) m.engine = (.ok state.inRange, m.engine)) ∧
      ∀ declaredName state, c = .pseudo declaredName state →
        Run.exec (m.session.openCursor name) m.engine
          = (.error (.pseudoCursor declaredName), m.engine) ∧
        Run.exec (m.session.closeCursor name) m.engine
          = (.error (.pseudoCursor declaredName), m.engine) ∧
        Run.exec (m.session.disposeCursor name) m.engine
          = (.error (.pseudoCursor declaredName), m.engine)) ∧
    (∀ i name rows, m.IsPseudo i name rows →
      ∀ more, (m.run more).IsPseudo i name rows) ∧
    ∀ name opened, Run.exec (m.session.openCursor name) m.engine = (.ok (), opened) →
      OpenCursor.Fits (m.engine.cursorRows m.session name) →
      ∀ n, (Run.exec ((List.replicate n .next).mapM (m.session.fetchCursor name)) opened).1
        = .ok ((List.range n).map fun k => (m.engine.cursorRows m.session name)[k]?) := by
  intro m
  have consistent : m.Consistent :=
    CursorRun.run_consistent (CursorRun.start_consistent engine) actions
  refine ⟨fun i hi name c held => ?_, fun name c found => ⟨?_, ?_, ?_, ?_⟩, ?_, ?_⟩
  · cases isOpen : c.state? with
    | none =>
      match c with
      | .declared declaredName query none => exact .inl ⟨declaredName, query, rfl⟩
    | some state =>
      obtain ⟨h, recorded, moved⟩ := consistent.follows i hi name c held state isOpen
      have rows : state.rows = h.rows := by
        have kept := OpenCursor.rows_moves { rows := h.rows } h.positions
        rwa [moved] at kept
      refine .inr ⟨state, h, rfl, recorded, rows, fun fits => ?_⟩
      have facts := OpenCursor.moves_opened fits h.positions
      rw [moved] at facts
      refine ⟨facts.1, facts.2, fun n next => ?_⟩
      rw [← (OpenCursor.moves_next fits n).1, ← next, moved]
  · obtain ⟨i, holds, entry⟩ := Engine.cursor_eq_ok_iff.mp found
    exact ⟨i, Engine.holder_mem holds, entry⟩
  · exact Session.exec_isCursorOpen found
  · exact fun state isOpen => Session.exec_isCursorInRange found isOpen
  · rintro declaredName state rfl
    exact Session.exec_refused found
  · exact fun i name rows pseudo more => CursorRun.run_isPseudo consistent pseudo more
  · intro name opened ran fits n
    rcases m.session.exec_openCursor consistent.hosts name with ⟨e, left, failed, -⟩ |
      ⟨left, i, declaredName, query, opens, holds, -, changed⟩
    · rw [failed] at ran
      cases ran
    · rw [opens] at ran
      cases ran
      rw [Session.exec_fetches (consistent.hosts.of_length changed.length)
        (changed.cursor_eq_ok holds) rfl, (OpenCursor.moves_next fits n).1]

/-- A cursor of an inner block hides the one outside, whose history does not go on meanwhile. -/
example : ((CursorRun.start {}).run [.declarePseudo "c" [.integer 7], .fetch "c" .next, .enterBlock,
    .declarePseudo "C" [], .fetch "c" .last, .exitBlock]).history 0 "c"
      = some ⟨[[.integer 7]], [.next], [some [.integer 7]]⟩ := rfl

end TableQuery
