import TableQuery.Proofs.Session.CursorMoves
import TableQuery.Proofs.Session.Preservation

/-!
# Cursors of a session

What a session can do with its cursors, action by action: which cursor changes, how, and what is
recorded about it. A cursor is known by the frame that holds it and its name, because cursors of
inner blocks may hide those of outer ones.
-/

namespace TableQuery

/-! ## Frames of a session -/

namespace Session

/-- The references to the frames, innermost first. -/
def references (s : Session) : List Nat :=
  s.innermost :: s.outer

end Session

namespace Engine

/-- The session refers to different frames of the engine. -/
structure Hosts (engine : Engine) (s : Session) : Prop where
  distinct : s.references.Nodup
  present : ∀ i ∈ s.references, i < engine.frames.length

/-- The frame that holds the innermost cursor of a name. -/
def holder (engine : Engine) (s : Session) (name : String) : Option Nat :=
  s.references.find? fun i => (engine.frame i).cursors.contains name

variable {engine changed : Engine} {s : Session} {name : String} {c : Cursor} {i : Nat}

theorem scope_frames (engine : Engine) (s : Session) :
    (engine.scope s).frames = s.references.map engine.frame := rfl

/-- A name means the cursor in the innermost frame that holds one. -/
theorem cursor_eq_ok_iff :
    (engine.scope s).cursor name = .ok c ↔
      ∃ i, engine.holder s name = some i ∧ (engine.frame i).cursors.get? name = some c := by
  rw [Scope.cursor, Scope.find?, scope_frames, List.findSome?_map, holder]
  induction s.references with
  | nil => simp
  | cons j references ih =>
    rw [List.findSome?_cons, List.find?_cons, NameMap.contains, Function.comp_apply]
    cases held : (engine.frame j).cursors.get? name with
    | none => exact ih
    | some d => simp [held]

theorem frame_setFrames_of_not_mem {changes : List (Nat × Frame)}
    (unwritten : i ∉ changes.map Prod.fst) : (engine.setFrames changes).frame i = engine.frame i := by
  refine engine.frame_setFrames changes (P := fun j f => j = i → f = engine.frame i)
    (fun _ same => by rw [same]) (fun change hc same => ?_) i rfl
  exact absurd (List.mem_map.mpr ⟨change, hc, same⟩) unwritten

/-- What is written to a frame once stays. -/
theorem frame_setFrames_of_mem {changes : List (Nat × Frame)}
    (distinct : (changes.map Prod.fst).Nodup) {change : Nat × Frame} (written : change ∈ changes)
    (present : change.1 < engine.frames.length) :
    (engine.setFrames changes).frame change.1 = change.2 := by
  induction changes generalizing engine with
  | nil => cases written
  | cons first changes ih =>
    rw [List.map_cons, List.nodup_cons] at distinct
    have one_by_one : engine.setFrames (first :: changes) =
        ({ engine with frames := engine.frames.set first.1 first.2 } : Engine).setFrames changes := rfl
    rw [one_by_one]
    rcases List.mem_cons.mp written with rfl | written
    · rw [frame_setFrames_of_not_mem distinct.1, frame, getD_set, if_pos ⟨rfl, present⟩]
    · exact ih distinct.2 written (by rwa [List.length_set])

/-- Writing back a scope in which one frame was changed. -/
theorem setScope_of_split (hosts : engine.Hosts s) {before after : List Nat}
    (split : s.references = before ++ i :: after) {scope : Scope} {frame : Frame}
    (frames : scope.frames = before.map engine.frame ++ frame :: after.map engine.frame) :
    (engine.setScope s scope).frame i = frame ∧
      ∀ j, j ≠ i → (engine.setScope s scope).frame j = engine.frame j := by
  have unchanged (references : List Nat) :
      references.zip (references.map engine.frame) = references.map fun j => (j, engine.frame j) := by
    have h : (references.map id).zip (references.map engine.frame)
        = references.map fun j => (j, engine.frame j) := List.zip_map'
    rwa [List.map_id] at h
  have written : engine.setScope s scope = engine.setFrames
      ((before.map fun j => (j, engine.frame j)) ++ (i, frame) ::
        after.map fun j => (j, engine.frame j)) := by
    show engine.setFrames (s.references.zip scope.frames) = _
    rw [split, frames, List.zip_append (by rw [List.length_map]), List.zip_cons_cons, unchanged,
      unchanged]
  rw [written]
  constructor
  · have among : (i, frame) ∈ (before.map fun j => (j, engine.frame j)) ++ (i, frame) ::
        after.map fun j => (j, engine.frame j) := by simp
    refine frame_setFrames_of_mem ?_ among (hosts.present i (split ▸ by simp))
    have distinct := hosts.distinct
    rw [split] at distinct
    simpa [Function.comp_def] using distinct
  · intro j other
    refine engine.frame_setFrames _ (P := fun j f => j ≠ i → f = engine.frame j)
      (fun _ _ => rfl) (fun change hc other => ?_) j other
    rcases List.mem_append.mp hc with hc | hc
    · obtain ⟨k, -, rfl⟩ := List.mem_map.mp hc
      rfl
    · rcases List.mem_cons.mp hc with rfl | hc
      · exact absurd rfl other
      · obtain ⟨k, -, rfl⟩ := List.mem_map.mp hc
        rfl

/-- The cursors of one frame are replaced, those of the others stay. -/
structure ChangedAt (engine changed : Engine) (i : Nat) (cursors : NameMap Cursor) : Prop where
  length : changed.frames.length = engine.frames.length
  here : (changed.frame i).cursors = cursors
  others : ∀ j, j ≠ i → (changed.frame j).cursors = (engine.frame j).cursors

theorem Hosts.of_length (hosts : engine.Hosts s)
    (length : changed.frames.length = engine.frames.length) : changed.Hosts s :=
  ⟨hosts.distinct, fun i hi => length ▸ hosts.present i hi⟩

theorem holder_mem (holds : engine.holder s name = some i) : i ∈ s.references :=
  List.mem_of_find?_eq_some holds

/-- Changing the innermost frame in which there is something to change. -/
theorem update_at (hosts : engine.Hosts s) {f : Frame → Option Frame}
    (found : s.references.find? (fun i => (f (engine.frame i)).isSome) = some i)
    (missing : QueryError) :
    ∃ frame scope, f (engine.frame i) = some frame ∧
      (engine.scope s).update missing f = .ok scope ∧
      (engine.setScope s scope).frame i = frame ∧
      ∀ j, j ≠ i → (engine.setScope s scope).frame j = engine.frame j := by
  obtain ⟨changes, before, after, split, passed⟩ := List.find?_eq_some_iff_append.mp found
  obtain ⟨frame, written⟩ := Option.isSome_iff_exists.mp changes
  have updated : Scope.updateFrames f (engine.scope s).frames =
      some (before.map engine.frame ++ frame :: after.map engine.frame) := by
    rw [scope_frames, show s.references = _ from split, List.map_append, List.map_cons]
    clear split
    induction before with
    | nil =>
      rw [List.map_nil, List.nil_append, Scope.updateFrames, written]
      rfl
    | cons j before ih =>
      have passed_j : f (engine.frame j) = none := by simpa using passed j List.mem_cons_self
      rw [List.map_cons, List.cons_append, Scope.updateFrames, passed_j]
      exact congrArg (Option.map _) (ih fun k hk => passed k (List.mem_cons_of_mem j hk))
  cases frames : before.map engine.frame ++ frame :: after.map engine.frame with
  | nil => simp at frames
  | cons innermost outer =>
    rw [frames] at updated
    refine ⟨frame, ⟨innermost, outer⟩, written, by rw [Scope.update, Scope.update?, updated], ?_⟩
    have rebuilt : Scope.frames ⟨innermost, outer⟩
        = before.map engine.frame ++ frame :: after.map engine.frame := frames.symm
    exact setScope_of_split hosts split rebuilt

/-- Changing the cursors of the innermost frame that has one of a name. -/
theorem update_cursors (hosts : engine.Hosts s) (holds : engine.holder s name = some i)
    (missing : QueryError) (change : NameMap Cursor → NameMap Cursor) :
    ∃ scope, (engine.scope s).update missing (fun frame =>
        if frame.cursors.contains name then some { frame with cursors := change frame.cursors }
        else none) = .ok scope ∧
      engine.ChangedAt (engine.setScope s scope) i (change (engine.frame i).cursors) := by
  let replace (frame : Frame) : Option Frame :=
    if frame.cursors.contains name then some { frame with cursors := change frame.cursors }
    else none
  have replaces (frame : Frame) : (replace frame).isSome = frame.cursors.contains name := by
    cases held : frame.cursors.contains name <;> simp [replace, held]
  have found : s.references.find? (fun i => (replace (engine.frame i)).isSome) = some i := by
    simpa only [replaces, holder] using holds
  obtain ⟨frame, scope, written, updated, here, others⟩ := update_at hosts found missing
  refine ⟨scope, updated, length_setFrames _ _, ?_, fun j hj => by rw [others j hj]⟩
  have held : (replace (engine.frame i)).isSome = true :=
    List.find?_some (p := fun i => (replace (engine.frame i)).isSome) found
  rw [replaces] at held
  rw [here, ← Option.some.inj ((if_pos held).symm.trans written)]

theorem setCursor_changes (hosts : engine.Hosts s) (holds : engine.holder s name = some i)
    (c : Cursor) :
    ∃ scope, (engine.scope s).setCursor name c = .ok scope ∧
      engine.ChangedAt (engine.setScope s scope) i ((engine.frame i).cursors.insert name c) :=
  update_cursors hosts holds _ fun cursors => cursors.insert name c

/-- A cursor that was replaced is found under its name. -/
theorem ChangedAt.cursor_eq_ok (holds : engine.holder s name = some i)
    (at_i : engine.ChangedAt changed i ((engine.frame i).cursors.insert name c)) :
    (changed.scope s).cursor name = .ok c := by
  have entry : (changed.frame i).cursors.get? name = some c := by
    rw [at_i.here, NameMap.get?_insert, if_pos rfl]
  refine cursor_eq_ok_iff.mpr ⟨i, ?_, entry⟩
  obtain ⟨found, before, after, split, passed⟩ := List.find?_eq_some_iff_append.mp holds
  refine List.find?_eq_some_iff_append.mpr ⟨?_, before, after, split, fun j hj => ?_⟩
  · rw [NameMap.contains, entry]
    rfl
  · have other : j ≠ i := by
      rintro rfl
      have := passed j hj
      rw [found] at this
      cases this
    rw [at_i.others j other]
    exact passed j hj

/-- Declaring a cursor where none of its name is. -/
theorem declareCursor_changes (hosts : engine.Hosts s) {scope : Scope}
    (declared : (engine.scope s).declareCursor c = .ok scope) :
    (engine.frame s.innermost).cursors.get? c.name = none ∧
      engine.ChangedAt (engine.setScope s scope) s.innermost
        ((engine.frame s.innermost).cursors.insert c.name c) := by
  unfold Scope.declareCursor at declared
  dsimp only at declared
  split at declared
  · cases declared
  rename_i free
  cases declared
  let declaring : Scope := { engine.scope s with
    innermost := { (engine.scope s).innermost with
      cursors := (engine.scope s).innermost.cursors.insert c.name c } }
  have first : s.references = [] ++ s.innermost :: s.outer := rfl
  have added : declaring.frames
      = [].map engine.frame ++ declaring.innermost :: s.outer.map engine.frame := rfl
  obtain ⟨here, others⟩ := setScope_of_split hosts first added
  have missing : (engine.scope s).innermost.cursors.get? c.name = none := by
    simpa [NameMap.contains] using free
  exact ⟨missing, length_setFrames _ _, by rw [here]; rfl, fun j hj => by rw [others j hj]⟩

end Engine

/-! ## What an action does -/

/-- What became of a cursor, which is known by the frame that holds it and its name. -/
inductive CursorEvent where
  | opened (frame : Nat) (name : String) (rows : List (List Value))
  | fetched (frame : Nat) (name : String) (position : FetchPosition) (row : Option (List Value))

/-- The rows that the query of a cursor gives. -/
def Engine.cursorRows (engine : Engine) (s : Session) (name : String) : List (List Value) :=
  match (Run.exec (do s.evaluate (← s.read fun scope => scope.cursorQuery name).run) engine).1 with
  | .ok v => v.rows
  | .error _ => []

/-- Something that a session does with its cursors or its blocks. -/
inductive CursorAction where
  | declare (name text : String)
  | declarePseudo (name : String) (values : List Value)
  | openCursor (name : String)
  | fetch (name : String) (position : FetchPosition)
  | close (name : String)
  | dispose (name : String)
  | enterBlock
  | exitBlock

/-- Does an action. Gives the session that it leaves and what became of which cursor; a pseudo cursor
is open from its declaration on. -/
def CursorAction.run (s : Session) : CursorAction → Run (Session × List CursorEvent)
  | .declare name text => do
    s.declareCursor name text
    return (s, [])
  | .declarePseudo name values => do
    s.declarePseudoCursor name values
    return (s, [.opened s.innermost name (values.map fun v => [v])])
  | .openCursor name => do
    let before ← get
    s.openCursor name
    return (s, (before.holder s name).toList.map fun i => .opened i name (before.cursorRows s name))
  | .fetch name position => do
    let before ← get
    let row ← s.fetchCursor name position
    return (s, (before.holder s name).toList.map fun i => .fetched i name position row)
  | .close name => do
    s.closeCursor name
    return (s, [])
  | .dispose name => do
    s.disposeCursor name
    return (s, [])
  | .enterBlock => return (← s.enterBlock, [])
  | .exitBlock => return (s.exitBlock, [])

/-- An engine, one of its sessions, and what became of the cursors so far. -/
structure CursorRun where
  engine : Engine
  session : Session
  log : List CursorEvent := []

namespace CursorRun

/-- A new session of an engine. -/
def start (engine : Engine) : CursorRun where
  engine := { engine with frames := engine.frames ++ [{}] }
  session := { innermost := engine.frames.length }

/-- Does an action. What fails is left out. -/
def step (m : CursorRun) (action : CursorAction) : CursorRun :=
  match Run.exec (action.run m.session) m.engine with
  | (.ok (session, events), engine) => { engine, session, log := m.log ++ events }
  | (.error _, engine) => { m with engine }

/-- Does one action after the other. -/
def run (m : CursorRun) (actions : List CursorAction) : CursorRun :=
  actions.foldl step m

end CursorRun

/-- How an action changes one cursor, and what is recorded of it. -/
inductive CursorChange (frame : Nat) (name : String) :
    Option Cursor → Option Cursor → List CursorEvent → Prop
  | declared (query : Query) : CursorChange frame name none (some (.declared name query none)) []
  | pseudo (rows : List (List Value)) :
    CursorChange frame name none (some (.pseudo name { rows })) [.opened frame name rows]
  | opened {declaredName : String} {query : Query} (rows : List (List Value)) :
    CursorChange frame name (some (.declared declaredName query none))
      (some (.declared declaredName query (some { rows }))) [.opened frame name rows]
  | fetched {c : Cursor} {state : OpenCursor} (isOpen : c.state? = some state)
    (position : FetchPosition) :
    CursorChange frame name (some c) (some (c.withState (state.fetch position).1))
      [.fetched frame name position (state.fetch position).2]
  | closed {declaredName : String} {query : Query} {state : Option OpenCursor} :
    CursorChange frame name (some (.declared declaredName query state))
      (some (.declared declaredName query none)) []
  | disposed {declaredName : String} {query : Query} {state : Option OpenCursor} :
    CursorChange frame name (some (.declared declaredName query state)) none []

/-- All that an action can do: nothing to cursors, a change of one cursor, or a block entered or
left. -/
inductive CursorRun.Steps (m : CursorRun) : CursorRun → Prop
  | kept {engine : Engine} (length : engine.frames.length = m.engine.frames.length)
    (cursors : ∀ i, (engine.frame i).cursors = (m.engine.frame i).cursors) :
    Steps m { m with engine }
  | changed {engine : Engine} {i : Nat} {name : String} {c? : Option Cursor}
    {cursors : NameMap Cursor} {events : List CursorEvent} (mine : i ∈ m.session.references)
    (change : CursorChange i name ((m.engine.frame i).cursors.get? name) c? events)
    (here : m.engine.ChangedAt engine i cursors)
    (entries : ∀ other, cursors.get? other =
      if Text.upper other = Text.upper name then c? else (m.engine.frame i).cursors.get? other) :
    Steps m { m with engine, log := m.log ++ events }
  | entered :
    Steps m { m with
      engine := { m.engine with frames := m.engine.frames ++ [{}] }
      session := { innermost := m.engine.frames.length, outer := m.session.references } }
  | left : Steps m { m with session := m.session.exitBlock }

/-! ## Actions one by one -/

theorem Session.exec_read {α : Type} (s : Session) (f : Scope → Except QueryError α)
    (engine : Engine) : Run.exec (s.read f) engine = (f (engine.scope s), engine) := by
  rw [Session.read, Run.exec_bind_ok (Run.exec_get engine)]
  rfl

theorem Session.exec_update (s : Session) (f : Scope → Except QueryError Scope) (engine : Engine) :
    Run.exec (s.update f) engine =
      match f (engine.scope s) with
      | .ok scope => (.ok (), engine.setScope s scope)
      | .error e => (.error e, engine) := by
  rw [Session.update, Run.exec_bind_ok (Run.exec_get engine), Run.exec_bind, Run.exec_lift]
  cases f (engine.scope s) <;> rfl

theorem Session.exec_fetchCursor (s : Session) (name : String) (position : FetchPosition)
    (engine : Engine) :
    Run.exec (s.fetchCursor name position) engine =
      match (engine.scope s).fetchCursor name position with
      | .ok (scope, row) => (.ok row, engine.setScope s scope)
      | .error e => (.error e, engine) := by
  rw [Session.fetchCursor, Run.exec_bind_ok (Run.exec_get engine), Run.exec_bind, Run.exec_lift]
  cases (engine.scope s).fetchCursor name position <;> rfl

namespace Scope

variable {s t : Scope} {name : String} {c : Cursor}

theorem fetchCursor_of_closed (found : s.cursor name = .ok c) (isClosed : c.state? = none)
    (position : FetchPosition) : s.fetchCursor name position = .error (.cursorClosed c.name) := by
  have state : c.state = .error (.cursorClosed c.name) := by rw [Cursor.state, isClosed]
  rw [fetchCursor, found]
  show (c.state >>= fun _ => _) = _
  rw [state]
  rfl

theorem fetchCursor_of_open (found : s.cursor name = .ok c) {state : OpenCursor}
    (isOpen : c.state? = some state) {position : FetchPosition}
    (updated : s.setCursor name (c.withState (state.fetch position).1) = .ok t) :
    s.fetchCursor name position = .ok (t, (state.fetch position).2) := by
  have stateOk : c.state = .ok state := by rw [Cursor.state, isOpen]
  rw [fetchCursor, found]
  show (c.state >>= fun _ => _) = _
  rw [stateOk]
  show (s.setCursor name (c.withState (state.fetch position).1) >>= fun _ => _) = _
  rw [updated]
  rfl

/-- Only a declared cursor that is closed has a query to run. -/
theorem cursorQuery_eq_ok {query : Query} (h : s.cursorQuery name = .ok query) :
    ∃ declaredName, s.cursor name = .ok (.declared declaredName query none) := by
  cases found : s.cursor name with
  | error e =>
    rw [cursorQuery, found] at h
    cases h
  | ok c =>
    rw [cursorQuery, found] at h
    match c with
    | .declared declaredName _ none =>
      cases h
      exact ⟨declaredName, rfl⟩
    | .declared _ _ (some _) => cases h
    | .pseudo _ _ => cases h

theorem openCursor_of_closed {declaredName : String} {query : Query}
    (found : s.cursor name = .ok (.declared declaredName query none)) (rows : List (List Value)) :
    s.openCursor name rows = s.setCursor name (.declared declaredName query (some { rows })) := by
  rw [openCursor, found]
  rfl

end Scope

/-- A query leaves all cursors alone. -/
theorem Session.exec_evaluate_cursors (s : Session) (q : Query) (engine : Engine) :
    (Run.exec (s.evaluate q.run) engine).2.frames.length = engine.frames.length ∧
      ∀ i, ((Run.exec (s.evaluate q.run) engine).2.frame i).cursors = (engine.frame i).cursors := by
  rw [Session.exec_evaluate]
  refine ⟨engine.length_setFrames _, fun i => ?_⟩
  exact (engine.frame_setScope s (Frame.KeptBut.refl _) (q.run_keptBut _ _) i).cursors

/-- Opening a cursor fails and leaves all cursors alone, or puts a closed one before the rows that its
query gives. -/
theorem Session.exec_openCursor (s : Session) {engine : Engine} (hosts : engine.Hosts s)
    (name : String) :
    (∃ e failed, Run.exec (s.openCursor name) engine = (.error e, failed) ∧
      failed.frames.length = engine.frames.length ∧
      ∀ i, (failed.frame i).cursors = (engine.frame i).cursors) ∨
    ∃ opened i declaredName query, Run.exec (s.openCursor name) engine = (.ok (), opened) ∧
      engine.holder s name = some i ∧
      (engine.frame i).cursors.get? name = some (.declared declaredName query none) ∧
      engine.ChangedAt opened i ((engine.frame i).cursors.insert name
        (.declared declaredName query (some { rows := engine.cursorRows s name }))) := by
  have runs : Run.exec (s.openCursor name) engine =
      Run.execThen (fun v : View => s.update fun scope => scope.openCursor name v.rows)
        (Run.exec (do s.evaluate (← s.read fun scope => scope.cursorQuery name).run) engine) := by
    rw [← Run.exec_bind, bind_assoc]
    rfl
  have asks := s.exec_read (fun scope => scope.cursorQuery name) engine
  cases asked : (engine.scope s).cursorQuery name with
  | error e =>
    rw [asked] at asks
    rw [runs, Run.exec_bind_error asks]
    exact .inl ⟨e, engine, rfl, rfl, fun _ => rfl⟩
  | ok query =>
    rw [asked] at asks
    obtain ⟨declaredName, found⟩ := Scope.cursorQuery_eq_ok asked
    obtain ⟨i, holds, entry⟩ := Engine.cursor_eq_ok_iff.mp found
    have evaluates := Run.exec_bind_ok asks fun query => s.evaluate query.run
    obtain ⟨length, cursors⟩ := s.exec_evaluate_cursors query engine
    rcases evaluated : Run.exec (s.evaluate query.run) engine with ⟨e | v, left⟩
    · rw [evaluated] at evaluates length cursors
      rw [runs, evaluates]
      exact .inl ⟨e, left, rfl, length, cursors⟩
    · rw [evaluated] at evaluates length cursors
      have rows : engine.cursorRows s name = v.rows := by rw [Engine.cursorRows, evaluates]
      have here : left.holder s name = some i := by
        simp only [Engine.holder, cursors]
        exact holds
      have same : (left.scope s).cursor name = .ok (.declared declaredName query none) :=
        Engine.cursor_eq_ok_iff.mpr ⟨i, here, (cursors i).symm ▸ entry⟩
      obtain ⟨scope, updated, changed⟩ := Engine.setCursor_changes (hosts.of_length length) here
        (.declared declaredName query (some { rows := v.rows }))
      refine .inr ⟨left.setScope s scope, i, declaredName, query, ?_, holds, entry,
        changed.length.trans length, ?_, fun j hj => ?_⟩
      · rw [runs, evaluates, Run.execThen, Session.exec_update, Scope.openCursor_of_closed same,
          updated]
      · rw [changed.here, cursors, rows]
      · rw [changed.others j hj, cursors]

namespace CursorRun

variable {m : CursorRun} {name : String}

theorem Steps.refl (m : CursorRun) : m.Steps m :=
  .kept rfl fun _ => rfl

/-- An action that changes the frames, or fails and leaves them alone. -/
theorem step_of_update {action : CursorAction} {f : Scope → Except QueryError Scope}
    {events : List CursorEvent}
    (acts : action.run m.session = (do
      m.session.update f
      return (m.session, events))) :
    m.step action = match f (m.engine.scope m.session) with
      | .ok scope =>
        { m with engine := m.engine.setScope m.session scope, log := m.log ++ events }
      | .error _ => m := by
  rw [step, acts, Run.exec_bind, Session.exec_update]
  cases f (m.engine.scope m.session) <;> rfl

/-- A cursor is declared where none of its name was. -/
theorem steps_declare (hosts : m.engine.Hosts m.session) {c : Cursor} {events : List CursorEvent}
    (change : CursorChange m.session.innermost c.name none (some c) events) :
    m.Steps (match (m.engine.scope m.session).declareCursor c with
      | .ok scope =>
        { m with engine := m.engine.setScope m.session scope, log := m.log ++ events }
      | .error _ => m) := by
  cases declared : (m.engine.scope m.session).declareCursor c with
  | error e => exact .refl m
  | ok scope =>
    obtain ⟨free, changed⟩ := Engine.declareCursor_changes hosts declared
    exact .changed List.mem_cons_self (free ▸ change) changed fun other =>
      NameMap.get?_insert _ _ _ _

/-- A cursor of the session is replaced or removed. -/
theorem steps_change (hosts : m.engine.Hosts m.session) {i : Nat}
    (holds : m.engine.holder m.session name = some i) {c? : Option Cursor}
    {events : List CursorEvent} (missing : QueryError)
    (change : CursorChange i name ((m.engine.frame i).cursors.get? name) c? events)
    {cursors : NameMap Cursor → NameMap Cursor}
    (entries : ∀ map other, (cursors map).get? other =
      if Text.upper other = Text.upper name then c? else map.get? other) :
    m.Steps (match (m.engine.scope m.session).update missing fun frame =>
        if frame.cursors.contains name then some { frame with cursors := cursors frame.cursors }
        else none with
      | .ok scope =>
        { m with engine := m.engine.setScope m.session scope, log := m.log ++ events }
      | .error _ => m) := by
  obtain ⟨scope, updated, changed⟩ := Engine.update_cursors hosts holds missing cursors
  rw [updated]
  exact .changed (Engine.holder_mem holds) change changed (entries _)

theorem steps_close (hosts : m.engine.Hosts m.session) (name : String) :
    m.Steps (m.step (.close name)) := by
  have acts : (CursorAction.close name).run m.session = (do
      m.session.update fun scope => scope.closeCursor name
      return (m.session, [])) := rfl
  rw [step_of_update acts]
  cases found : (m.engine.scope m.session).cursor name with
  | error e => rw [Scope.closeCursor, found]; exact .refl m
  | ok c =>
    obtain ⟨i, holds, entry⟩ := Engine.cursor_eq_ok_iff.mp found
    cases c with
    | pseudo declaredName state => rw [Scope.closeCursor, found]; exact .refl m
    | declared declaredName query state =>
      rw [Scope.closeCursor, found]
      exact steps_change hosts holds _ (entry ▸ .closed) fun map other => map.get?_insert _ _ _

theorem steps_dispose (hosts : m.engine.Hosts m.session) (name : String) :
    m.Steps (m.step (.dispose name)) := by
  have acts : (CursorAction.dispose name).run m.session = (do
      m.session.update fun scope => scope.disposeCursor name
      return (m.session, [])) := rfl
  rw [step_of_update acts]
  cases found : (m.engine.scope m.session).cursor name with
  | error e => rw [Scope.disposeCursor, found]; exact .refl m
  | ok c =>
    obtain ⟨i, holds, entry⟩ := Engine.cursor_eq_ok_iff.mp found
    cases c with
    | pseudo declaredName state => rw [Scope.disposeCursor, found]; exact .refl m
    | declared declaredName query state =>
      rw [Scope.disposeCursor, found]
      exact steps_change hosts holds _ (entry ▸ .disposed) fun map other => map.get?_erase _ _

theorem steps_declareCursor (hosts : m.engine.Hosts m.session) (name text : String) :
    m.Steps (m.step (.declare name text)) := by
  cases parsed : Language.parseQuery text with
  | error e =>
    have failed : Run.exec ((CursorAction.declare name text).run m.session) m.engine
        = (.error e, m.engine) := by
      rw [CursorAction.run, Session.declareCursor, parsed]
      rfl
    rw [step, failed]
    exact .refl m
  | ok query =>
    have acts : (CursorAction.declare name text).run m.session = (do
        m.session.update fun scope => scope.declareCursor (.declared name query none)
        return (m.session, [])) := by
      rw [CursorAction.run, Session.declareCursor, parsed]
      rfl
    rw [step_of_update acts]
    exact steps_declare hosts (.declared query)

theorem steps_fetch (hosts : m.engine.Hosts m.session) (name : String)
    (position : FetchPosition) : m.Steps (m.step (.fetch name position)) := by
  have acts : m.step (.fetch name position) =
      match (m.engine.scope m.session).fetchCursor name position with
      | .ok (scope, row) =>
        { m with
          engine := m.engine.setScope m.session scope
          log := m.log ++ (m.engine.holder m.session name).toList.map fun i =>
            .fetched i name position row }
      | .error _ => m := by
    rw [step, CursorAction.run, Run.exec_bind_ok (Run.exec_get m.engine), Run.exec_bind,
      Session.exec_fetchCursor]
    cases (m.engine.scope m.session).fetchCursor name position <;> rfl
  rw [acts]
  cases found : (m.engine.scope m.session).cursor name with
  | error e => rw [Scope.fetchCursor, found]; exact .refl m
  | ok c =>
    obtain ⟨i, holds, entry⟩ := Engine.cursor_eq_ok_iff.mp found
    cases isOpen : c.state? with
    | none =>
      rw [Scope.fetchCursor_of_closed found isOpen]
      exact .refl m
    | some state =>
      obtain ⟨scope, updated, changed⟩ := Engine.setCursor_changes hosts holds
        (c.withState (state.fetch position).1)
      rw [Scope.fetchCursor_of_open found isOpen updated, holds]
      exact .changed (Engine.holder_mem holds) (entry ▸ .fetched isOpen position) changed
        fun other => NameMap.get?_insert _ _ _ _

theorem steps_open (hosts : m.engine.Hosts m.session) (name : String) :
    m.Steps (m.step (.openCursor name)) := by
  have acts : Run.exec ((CursorAction.openCursor name).run m.session) m.engine =
      Run.execThen (fun _ => pure (m.session, (m.engine.holder m.session name).toList.map fun i =>
          CursorEvent.opened i name (m.engine.cursorRows m.session name)))
        (Run.exec (m.session.openCursor name) m.engine) := by
    rw [CursorAction.run, Run.exec_bind_ok (Run.exec_get m.engine), Run.exec_bind]
  rw [step, acts]
  rcases m.session.exec_openCursor hosts name with ⟨e, engine, failed, length, cursors⟩ |
    ⟨engine, i, declaredName, query, opened, holds, entry, changed⟩
  · rw [failed]
    exact .kept length cursors
  · have change : CursorChange i name ((m.engine.frame i).cursors.get? name)
        (some (.declared declaredName query (some { rows := m.engine.cursorRows m.session name })))
        [.opened i name (m.engine.cursorRows m.session name)] := entry ▸ .opened _
    rw [opened, holds]
    exact .changed (Engine.holder_mem holds) change changed fun other =>
      NameMap.get?_insert _ _ _ _

/-- An action of a session does one of these things to its cursors. -/
theorem steps_step (hosts : m.engine.Hosts m.session) (action : CursorAction) :
    m.Steps (m.step action) := by
  cases action with
  | declare name text => exact steps_declareCursor hosts name text
  | declarePseudo name values =>
    rw [step_of_update (f := fun scope => scope.declareCursor
      (.pseudo name { rows := values.map fun v => [v] })) rfl]
    exact steps_declare hosts (c := .pseudo name _) (.pseudo _)
  | openCursor name => exact steps_open hosts name
  | fetch name position => exact steps_fetch hosts name position
  | close name => exact steps_close hosts name
  | dispose name => exact steps_dispose hosts name
  | enterBlock =>
    have acts : m.step .enterBlock = { m with
        engine := { m.engine with frames := m.engine.frames ++ [{}] }
        session := { innermost := m.engine.frames.length, outer := m.session.references }
        log := m.log ++ [] } := rfl
    rw [acts, List.append_nil]
    exact .entered
  | exitBlock =>
    have acts : m.step .exitBlock = { m with session := m.session.exitBlock, log := m.log ++ [] } :=
      rfl
    rw [acts, List.append_nil]
    exact .left

end CursorRun

end TableQuery
