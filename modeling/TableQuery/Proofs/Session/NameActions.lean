import TableQuery.Proofs.Session.CursorActions

/-!
# Actions on names

Variables, views, cursors and functions are declared by name, each kind apart from the others. An
action on a name works on one frame of its session: a declaration on the innermost one, anything
else on the innermost one that declares the name. There it changes what is declared under that name
and nothing else.
-/

namespace TableQuery

open TableQuery.Language

/-! ## Declarations -/

/-- What can be declared by name. Names of different kinds do not meet. -/
inductive NameKind where
  | var
  | view
  | cursor
  | function
  deriving DecidableEq, Repr

/-- What a name of a kind stands for. -/
@[reducible]
def NameKind.Meaning : NameKind → Type
  | .var => Value
  | .view => View
  | .cursor => Cursor
  | .function => UserFunction

namespace Frame

/-- The declarations of a kind. -/
def names (frame : Frame) : (kind : NameKind) → NameMap kind.Meaning
  | .var => frame.vars
  | .view => frame.views
  | .cursor => frame.cursors
  | .function => frame.functions

/-- Replaces the declarations of a kind. -/
def setNames (frame : Frame) : (kind : NameKind) → NameMap kind.Meaning → Frame
  | .var, vars => { frame with vars }
  | .view, views => { frame with views }
  | .cursor, cursors => { frame with cursors }
  | .function, functions => { frame with functions }

variable (frame : Frame) {kind other : NameKind}

@[simp] theorem names_setNames (m : NameMap kind.Meaning) :
    (frame.setNames kind m).names kind = m := by
  cases kind <;> rfl

theorem names_setNames_of_ne (m : NameMap kind.Meaning) (ne : other ≠ kind) :
    (frame.setNames kind m).names other = frame.names other := by
  cases kind <;> cases other <;> first | rfl | exact absurd rfl ne

/-- The frame `b` declares something else than `a` under one name, and otherwise the same. -/
structure ChangedAt (a b : Frame) (kind : NameKind) (name : String) (d : Option kind.Meaning) :
    Prop where
  names : ∀ other, (b.names kind).get? other =
    if Text.upper other = Text.upper name then d else (a.names kind).get? other
  kinds : ∀ other, other ≠ kind → b.names other = a.names other

theorem changedAt_setNames {m : NameMap kind.Meaning} {name : String} {d : Option kind.Meaning}
    (entries : ∀ other, m.get? other =
      if Text.upper other = Text.upper name then d else (frame.names kind).get? other) :
    frame.ChangedAt (frame.setNames kind m) kind name d where
  names other := by rw [names_setNames, entries]
  kinds _ ne := frame.names_setNames_of_ne m ne

theorem ChangedAt.refl (kind : NameKind) (name : String) :
    frame.ChangedAt frame kind name ((frame.names kind).get? name) where
  names other := by
    split
    · exact NameMap.get?_of_upper _ ‹_›
    · rfl
  kinds _ _ := rfl

end Frame

/-- Declares a name in the innermost frame, which must not have it. -/
def Scope.declare (s : Scope) (kind : NameKind) (name : String) (taken : QueryError)
    (d : kind.Meaning) : Except QueryError Scope :=
  if (s.innermost.names kind).contains name then .error taken
  else .ok { s with innermost :=
    s.innermost.setNames kind ((s.innermost.names kind).insert name d) }

/-- Changes the declarations of the innermost frame that has a name. -/
def Scope.alter (s : Scope) (kind : NameKind) (name : String) (missing : QueryError)
    (change : NameMap kind.Meaning → NameMap kind.Meaning) : Except QueryError Scope :=
  s.update missing fun frame =>
    if (frame.names kind).contains name then
      some (frame.setNames kind (change (frame.names kind)))
    else
      none

namespace Engine

/-- What a name means to a session. -/
def lookup (engine : Engine) (s : Session) (kind : NameKind) (name : String) :
    Option kind.Meaning :=
  (engine.scope s).find? fun frame => (frame.names kind).get? name

/-- The innermost frame of a session that declares a name. -/
def declaring (engine : Engine) (s : Session) (kind : NameKind) (name : String) : Option Nat :=
  s.references.find? fun i => ((engine.frame i).names kind).contains name

/-- One frame declares something else under one name; all else is the same. -/
structure Redeclared (engine left : Engine) (i : Nat) (kind : NameKind) (name : String)
    (d : Option kind.Meaning) : Prop where
  settings : left.settings = engine.settings
  length : left.frames.length = engine.frames.length
  others : ∀ j, j ≠ i → left.frame j = engine.frame j
  here : (engine.frame i).ChangedAt (left.frame i) kind name d

variable {engine left : Engine} {s : Session} {kind : NameKind} {name : String} {i : Nat}

/-- What the first of some frames that declares a name says of it. -/
def among (engine : Engine) (references : List Nat) (kind : NameKind) (name : String) :
    Option kind.Meaning :=
  references.findSome? fun i => ((engine.frame i).names kind).get? name

theorem lookup_eq_among (engine : Engine) (s : Session) (kind : NameKind) (name : String) :
    engine.lookup s kind name = engine.among s.references kind name := by
  rw [lookup, Scope.find?, scope_frames, List.findSome?_map]
  rfl

/-- A name means what the innermost frame that declares it says. -/
theorem lookup_eq (engine : Engine) (s : Session) (kind : NameKind) (name : String) :
    engine.lookup s kind name = (engine.declaring s kind name).bind fun i =>
      ((engine.frame i).names kind).get? name := by
  rw [lookup_eq_among, among, declaring]
  induction s.references with
  | nil => rfl
  | cons j references ih =>
    rw [List.findSome?_cons, List.find?_cons, NameMap.contains]
    cases held : ((engine.frame j).names kind).get? name with
    | none => exact ih
    | some d => simp [held]

theorem get?_of_declaring (declared : engine.declaring s kind name = some i) :
    ∃ d, ((engine.frame i).names kind).get? name = some d :=
  Option.isSome_iff_exists.mp
    (List.find?_some (p := fun i => ((engine.frame i).names kind).contains name) declared)

theorem among_congr {references : List Nat}
    (same : ∀ i ∈ references, ((left.frame i).names kind).get? name
      = ((engine.frame i).names kind).get? name) :
    left.among references kind name = engine.among references kind name := by
  induction references with
  | nil => rfl
  | cons i references ih =>
    have rest := ih fun j hj => same j (List.mem_cons_of_mem i hj)
    rw [among, among, List.findSome?_cons, List.findSome?_cons, same i List.mem_cons_self]
    rw [among, among] at rest
    rw [rest]

theorem scope_congr (same : ∀ i ∈ s.references, left.frame i = engine.frame i) :
    left.scope s = engine.scope s := by
  rw [scope, scope, same s.innermost List.mem_cons_self,
    List.map_congr_left fun i hi => same i (List.mem_cons_of_mem _ hi)]

/-- What a session sees of an action on a name in one frame: nothing if the frame is not among its
own, and otherwise what the frame declares now, if no frame further in declares the name. -/
structure Sees (engine left : Engine) (t : Session) (f : Nat) (kind : NameKind) (name : String) :
    Prop where
  apart : f ∉ t.references → left.scope t = engine.scope t
  others : ∀ kind' name', ¬(kind' = kind ∧ Text.upper name' = Text.upper name) →
    left.lookup t kind' name' = engine.lookup t kind' name'
  seen : ∀ inner outer, t.references = inner ++ f :: outer →
    left.lookup t kind name = (engine.among inner kind name).or
      ((((left.frame f).names kind).get? name).or (engine.among outer kind name))

theorem Redeclared.refl (engine : Engine) (i : Nat) (kind : NameKind) (name : String) :
    engine.Redeclared engine i kind name (((engine.frame i).names kind).get? name) :=
  ⟨rfl, rfl, fun _ _ => rfl, .refl _ kind name⟩

/-- What is declared anew in a frame is seen by the sessions that have the frame. -/
theorem Redeclared.sees {d : Option kind.Meaning} (h : engine.Redeclared left i kind name d)
    (hosts : engine.Hosts s) : engine.Sees left s i kind name where
  apart absent := scope_congr fun j hj => h.others j fun same => absurd (same ▸ hj) absent
  others kind' name' other := by
    rw [lookup_eq_among, lookup_eq_among]
    refine among_congr fun j _ => ?_
    by_cases here : j = i
    · subst here
      by_cases same : kind' = kind
      · subst same
        rw [h.here.names, if_neg fun same => other ⟨rfl, same⟩]
      · rw [h.here.kinds kind' same]
    · rw [h.others j here]
  seen inner outer split := by
    have distinct := hosts.distinct
    rw [split, List.nodup_append, List.nodup_cons] at distinct
    obtain ⟨-, ⟨not_outer, -⟩, not_inner⟩ := distinct
    have inner_same : left.among inner kind name = engine.among inner kind name :=
      among_congr fun j hj => by rw [h.others j (not_inner j hj i List.mem_cons_self)]
    have outer_same : left.among outer kind name = engine.among outer kind name :=
      among_congr fun j hj => by rw [h.others j fun same => not_outer (same ▸ hj)]
    rw [lookup_eq_among, split, ← inner_same, ← outer_same, among, List.findSome?_append,
      List.findSome?_cons]
    congr 1
    cases ((left.frame i).names kind).get? name <;> rfl

/-- A change of the scope is refused, or leaves something else under one name in one frame. -/
def Alters (engine : Engine) (s : Session) (i : Nat) (kind : NameKind) (name : String)
    (change : Except QueryError Scope) : Option (Option kind.Meaning) → Prop
  | none => ∃ e, change = .error e
  | some d =>
    ∃ scope, change = .ok scope ∧ engine.Redeclared (engine.setScope s scope) i kind name d

theorem alters_declare (hosts : engine.Hosts s) {d : kind.Meaning} {taken : QueryError}
    {entry : Option kind.Meaning → Option (Option kind.Meaning)} (free : entry none = some (some d))
    (refused : ∀ d', entry (some d') = none) :
    engine.Alters s s.innermost kind name ((engine.scope s).declare kind name taken d)
      (entry (((engine.frame s.innermost).names kind).get? name)) := by
  have innermost : (engine.scope s).innermost = engine.frame s.innermost := rfl
  rw [Scope.declare, innermost, NameMap.contains]
  cases held : ((engine.frame s.innermost).names kind).get? name with
  | some d' =>
    rw [refused]
    exact ⟨taken, rfl⟩
  | none =>
    rw [free]
    let frame := (engine.frame s.innermost).setNames kind
      (((engine.frame s.innermost).names kind).insert name d)
    have first : s.references = [] ++ s.innermost :: s.outer := rfl
    have added : Scope.frames { engine.scope s with innermost := frame }
        = [].map engine.frame ++ frame :: s.outer.map engine.frame := rfl
    obtain ⟨here, others⟩ := setScope_of_split hosts first added
    refine ⟨_, rfl, rfl, length_setFrames _ _, others, ?_⟩
    rw [here]
    exact Frame.changedAt_setNames _ fun other => NameMap.get?_insert _ _ _ _

theorem alters_alter (hosts : engine.Hosts s) (declared : engine.declaring s kind name = some i)
    {change : NameMap kind.Meaning → NameMap kind.Meaning} {d : Option kind.Meaning}
    (entries : ∀ m other, (change m).get? other =
      if Text.upper other = Text.upper name then d else m.get? other) (missing : QueryError) :
    engine.Alters s i kind name ((engine.scope s).alter kind name missing change) (some d) := by
  let replace (frame : Frame) : Option Frame :=
    if (frame.names kind).contains name then
      some (frame.setNames kind (change (frame.names kind)))
    else
      none
  have replaces (frame : Frame) : (replace frame).isSome = (frame.names kind).contains name := by
    cases held : (frame.names kind).contains name <;> simp [replace, held]
  have found : s.references.find? (fun i => (replace (engine.frame i)).isSome) = some i := by
    simpa only [replaces, declaring] using declared
  obtain ⟨frame, scope, written, updated, here, others⟩ := update_at hosts found missing
  obtain ⟨d', held⟩ := get?_of_declaring declared
  have changed : replace (engine.frame i) = some _ :=
    if_pos (by rw [NameMap.contains, held]; rfl)
  refine ⟨scope, updated, rfl, length_setFrames _ _, others, ?_⟩
  rw [here, ← Option.some.inj (changed.symm.trans written)]
  exact Frame.changedAt_setNames _ (entries _)

/-- Where no frame declares the name there is nothing to change. -/
theorem alter_of_undeclared (undeclared : engine.declaring s kind name = none)
    (change : NameMap kind.Meaning → NameMap kind.Meaning) (missing : QueryError) :
    (engine.scope s).alter kind name missing change = .error missing := by
  rw [declaring] at undeclared
  have nothing (references : List Nat)
      (undeclared : ∀ i ∈ references, ¬((engine.frame i).names kind).contains name = true) :
      Scope.updateFrames (fun frame =>
        if (frame.names kind).contains name then
          some (frame.setNames kind (change (frame.names kind)))
        else none) (references.map engine.frame) = none := by
    induction references with
    | nil => rfl
    | cons j references ih =>
      rw [List.map_cons, Scope.updateFrames, if_neg (undeclared j List.mem_cons_self)]
      exact congrArg (Option.map _) (ih fun i hi => undeclared i (List.mem_cons_of_mem j hi))
  rw [Scope.alter, Scope.update, Scope.update?, scope_frames,
    nothing s.references fun i hi => List.find?_eq_none.mp undeclared i hi]

theorem variableValue_eq (engine : Engine) (s : Session) (name : String) :
    (engine.scope s).variableValue name =
      (engine.lookup s .var name).elim (.error (.undeclaredVariable name)) .ok := by
  simp only [Scope.variableValue, lookup, Frame.names]
  cases (engine.scope s).find? fun frame => frame.vars.get? name <;> rfl

theorem cursor_eq (engine : Engine) (s : Session) (name : String) :
    (engine.scope s).cursor name =
      (engine.lookup s .cursor name).elim (.error (.undeclaredCursor name)) .ok := by
  simp only [Scope.cursor, lookup, Frame.names]
  cases (engine.scope s).find? fun frame => frame.cursors.get? name <;> rfl

end Engine

/-! ## Actions -/

/-- Something that a session does with a name, other than to run queries. A cursor is opened over
the rows that its query gave. -/
inductive NameAction where
  | lookUp (kind : NameKind) (name : String)
  | declareVariable (name : String) (value : Value)
  | setVariable (name : String) (value : Value)
  | disposeVariable (name : String)
  | declareView (name : String) (view : View)
  | replaceView (name : String) (view : View)
  | disposeView (name : String)
  | declareCursor (name text : String)
  | declarePseudoCursor (name : String) (values : List Value)
  | openCursor (name : String) (rows : List (List Value))
  | fetchCursor (name : String) (position : FetchPosition)
  | closeCursor (name : String)
  | disposeCursor (name : String)
  | declareFunction (f : UserFunction)

namespace NameAction

/-- The kind of the name. -/
@[reducible]
def kind : NameAction → NameKind
  | lookUp kind _ => kind
  | declareVariable .. | setVariable .. | disposeVariable .. => .var
  | declareView .. | replaceView .. | disposeView .. => .view
  | declareCursor .. | declarePseudoCursor .. | openCursor .. | fetchCursor .. | closeCursor ..
  | disposeCursor .. => .cursor
  | declareFunction .. => .function

/-- The name under which frames are searched. -/
def name : NameAction → String
  | lookUp .var name | declareVariable name _ | setVariable name _ | disposeVariable name =>
    Session.variableName name
  | lookUp _ name | declareView name _ | replaceView name _ | disposeView name
  | declareCursor name _ | declarePseudoCursor name _ | openCursor name _ | fetchCursor name _
  | closeCursor name | disposeCursor name => name
  | declareFunction f => f.name

/-- Whether the action declares the name. -/
def declares : NameAction → Bool
  | declareVariable .. | declareView .. | declareCursor .. | declarePseudoCursor ..
  | declareFunction .. => true
  | _ => false

/-- Whether the action only looks the name up. -/
def reads : NameAction → Bool
  | lookUp .. => true
  | _ => false

/-- How an action changes the frames of its session. -/
def change (scope : Scope) : NameAction → Except QueryError Scope
  | lookUp .. => .ok scope
  | declareVariable name value => scope.declareVariable (Session.variableName name) value
  | setVariable name value => scope.setVariable (Session.variableName name) value
  | disposeVariable name => scope.disposeVariable (Session.variableName name)
  | declareView name view => scope.declareView name view
  | replaceView name view => scope.replaceView name view
  | disposeView name => scope.disposeView name
  | declareCursor name text => do scope.declareCursor (.declared name (← parseQuery text) none)
  | declarePseudoCursor name values =>
    scope.declareCursor (.pseudo name { rows := values.map fun v => [v] })
  | openCursor name rows => scope.openCursor name rows
  | fetchCursor name position => return (← scope.fetchCursor name position).1
  | closeCursor name => scope.closeCursor name
  | disposeCursor name => scope.disposeCursor name
  | declareFunction f => scope.declareFunction f

/-- Does an action. A name that was looked up gives what it means. -/
def run (s : Session) : (a : NameAction) → Run (Option a.kind.Meaning)
  | lookUp .var name => do return some (← s.variableValue name)
  | lookUp .view name => s.read fun scope => .ok (scope.view? name)
  | lookUp .cursor name => do return some (← s.read fun scope => scope.cursor name)
  | lookUp .function name => s.read fun scope => .ok (scope.function? name)
  | declareVariable name value => do s.declareVariable name value; return none
  | setVariable name value => do s.setVariable name value; return none
  | disposeVariable name => do s.disposeVariable name; return none
  | declareView name view => do s.declareView name view; return none
  | replaceView name view => do s.replaceView name view; return none
  | disposeView name => do s.disposeView name; return none
  | declareCursor name text => do s.declareCursor name text; return none
  | declarePseudoCursor name values => do s.declarePseudoCursor name values; return none
  | openCursor name rows => do s.update fun scope => scope.openCursor name rows; return none
  | fetchCursor name position => do let _ ← s.fetchCursor name position; return none
  | closeCursor name => do s.closeCursor name; return none
  | disposeCursor name => do s.disposeCursor name; return none
  | declareFunction f => do s.declareFunction f; return none

/-- What the frame on which an action works declares afterwards, which may be nothing any more.
Without a result the action is refused. -/
def entry : (a : NameAction) → Option a.kind.Meaning → Option (Option a.kind.Meaning)
  | lookUp _ _, some d => some (some d)
  | declareVariable _ value, none => some (some value)
  | setVariable _ value, some _ => some (some value)
  | disposeVariable _, some _ => some none
  | declareView _ view, none => some (some view)
  | replaceView _ view, some _ => some (some view)
  | disposeView _, some _ => some none
  | declareCursor name text, none =>
    (parseQuery text).toOption.map fun query => some (.declared name query none)
  | declarePseudoCursor name values, none =>
    some (some (.pseudo name { rows := values.map fun v => [v] }))
  | openCursor _ rows, some (.declared name query none) =>
    some (some (.declared name query (some { rows })))
  | fetchCursor _ position, some (c : Cursor) =>
    c.state?.map fun state => some (c.withState (state.fetch position).1)
  | closeCursor _, some (.declared name query _) => some (some (.declared name query none))
  | disposeCursor _, some (.declared ..) => some none
  | declareFunction f, none => some (some f)
  | _, _ => none

/-- The frame on which an action works: for a declaration the innermost one, else the innermost one
that declares the name. -/
def place? (a : NameAction) (engine : Engine) (s : Session) : Option Nat :=
  if a.declares then some s.innermost else engine.declaring s a.kind a.name

variable {a : NameAction} {engine : Engine} {s : Session}

/-- An action that does more than look a name up changes the frames, or fails and leaves them. -/
theorem exec_run (acts : a.reads = false) :
    Run.exec (a.run s) engine = match a.change (engine.scope s) with
      | .ok scope => (.ok none, engine.setScope s scope)
      | .error e => (.error e, engine) := by
  have updates {f : Scope → Except QueryError Scope} :
      Run.exec (do s.update f; return (none : Option a.kind.Meaning)) engine =
        match f (engine.scope s) with
        | .ok scope => (.ok none, engine.setScope s scope)
        | .error e => (.error e, engine) := by
    rw [Run.exec_bind, Session.exec_update]
    cases f (engine.scope s) <;> rfl
  cases a with
  | lookUp => cases acts
  | declareCursor name text =>
    rw [run, Session.declareCursor, change]
    cases parseQuery text with
    | error e => rfl
    | ok query => exact updates (f := fun scope => scope.declareCursor (.declared name query none))
  | fetchCursor name position =>
    rw [run, Run.exec_bind, Session.exec_fetchCursor, change]
    cases (engine.scope s).fetchCursor name position <;> rfl
  | _ => exact updates

@[simp] theorem entry_declareCursor (name text : String) :
    (declareCursor name text).entry none =
      (parseQuery text).toOption.map fun query => some (.declared name query none) := rfl

@[simp] theorem entry_fetchCursor (name : String) (position : FetchPosition) (c : Cursor) :
    (fetchCursor name position).entry (some c) =
      c.state?.map fun state => some (c.withState (state.fetch position).1) := rfl

/-! ## Cursors -/

section

variable (hosts : engine.Hosts s) {i : Nat} {name : String}

include hosts

theorem alters_declareCursor (name text : String) :
    engine.Alters s s.innermost .cursor name ((declareCursor name text).change (engine.scope s))
      ((declareCursor name text).entry (((engine.frame s.innermost).names .cursor).get? name)) := by
  rw [change]
  cases parsed : parseQuery text with
  | error e =>
    have unread : (declareCursor name text).entry
        (((engine.frame s.innermost).names .cursor).get? name) = none := by
      cases ((engine.frame s.innermost).names .cursor).get? name with
      | none => rw [entry_declareCursor, parsed]; rfl
      | some c => rfl
    rw [unread]
    exact ⟨e, rfl⟩
  | ok query =>
    have read : (declareCursor name text).entry none = some (some (.declared name query none)) := by
      rw [entry_declareCursor, parsed]
      rfl
    exact Engine.alters_declare hosts read fun _ => rfl

variable (declared : engine.declaring s .cursor name = some i)

include declared

theorem alters_setCursor (c : Cursor) :
    engine.Alters s i .cursor name ((engine.scope s).setCursor name c) (some (some c)) := by
  have entries (m : NameMap (NameKind.Meaning .cursor)) (other : String) :=
    m.get?_insert name other c
  exact Engine.alters_alter hosts declared entries _

theorem alters_openCursor (rows : List (List Value)) :
    engine.Alters s i .cursor name ((engine.scope s).openCursor name rows)
      ((openCursor name rows).entry (((engine.frame i).names .cursor).get? name)) := by
  obtain ⟨c, held⟩ := Engine.get?_of_declaring declared
  have found := Engine.cursor_eq_ok_iff.mpr ⟨i, declared, held⟩
  rw [held, Scope.openCursor, found]
  cases c with
  | declared declaredName query state =>
    cases state with
    | none => exact alters_setCursor hosts declared _
    | some state => exact ⟨_, rfl⟩
  | pseudo _ _ => exact ⟨_, rfl⟩

theorem alters_fetchCursor (position : FetchPosition) :
    engine.Alters s i .cursor name ((fetchCursor name position).change (engine.scope s))
      ((fetchCursor name position).entry (((engine.frame i).names .cursor).get? name)) := by
  obtain ⟨c, held⟩ := Engine.get?_of_declaring declared
  have found := Engine.cursor_eq_ok_iff.mpr ⟨i, declared, held⟩
  rw [held, change, entry_fetchCursor]
  cases isOpen : Cursor.state? c with
  | none =>
    rw [Scope.fetchCursor_of_closed found isOpen]
    exact ⟨_, rfl⟩
  | some state =>
    obtain ⟨scope, updated, redeclared⟩ :=
      alters_setCursor hosts declared (Cursor.withState c (state.fetch position).1)
    rw [Scope.fetchCursor_of_open found isOpen updated]
    exact ⟨scope, rfl, redeclared⟩

theorem alters_closeCursor :
    engine.Alters s i .cursor name ((engine.scope s).closeCursor name)
      ((closeCursor name).entry (((engine.frame i).names .cursor).get? name)) := by
  obtain ⟨c, held⟩ := Engine.get?_of_declaring declared
  have found := Engine.cursor_eq_ok_iff.mpr ⟨i, declared, held⟩
  rw [held, Scope.closeCursor, found]
  cases c with
  | declared declaredName query state => exact alters_setCursor hosts declared _
  | pseudo _ _ => exact ⟨_, rfl⟩

theorem alters_disposeCursor :
    engine.Alters s i .cursor name ((engine.scope s).disposeCursor name)
      ((disposeCursor name).entry (((engine.frame i).names .cursor).get? name)) := by
  obtain ⟨c, held⟩ := Engine.get?_of_declaring declared
  have found := Engine.cursor_eq_ok_iff.mpr ⟨i, declared, held⟩
  rw [held, Scope.disposeCursor, found]
  cases c with
  | declared declaredName query state =>
    have entries (m : NameMap (NameKind.Meaning .cursor)) (other : String) :=
      m.get?_erase name other
    exact Engine.alters_alter hosts declared entries _
  | pseudo _ _ => exact ⟨_, rfl⟩

end

/-! ## What actions do -/

/-- An action is refused, or changes the declaration of its name in the frame on which it works. -/
theorem change_alters (acts : a.reads = false) (hosts : engine.Hosts s) {i : Nat}
    (place : a.place? engine s = some i) :
    engine.Alters s i a.kind a.name (a.change (engine.scope s))
      (a.entry (((engine.frame i).names a.kind).get? a.name)) := by
  cases a with
  | lookUp => cases acts
  | declareVariable | declareView | declarePseudoCursor | declareFunction =>
    cases place
    exact Engine.alters_declare hosts rfl fun _ => rfl
  | declareCursor name text =>
    cases place
    exact alters_declareCursor hosts name text
  | setVariable | replaceView =>
    obtain ⟨d, held⟩ := Engine.get?_of_declaring place
    rw [held]
    exact Engine.alters_alter hosts place (fun m other => m.get?_insert _ other _) _
  | disposeVariable | disposeView =>
    obtain ⟨d, held⟩ := Engine.get?_of_declaring place
    rw [held]
    exact Engine.alters_alter hosts place (fun m other => m.get?_erase _ other) _
  | openCursor name rows => exact alters_openCursor hosts place rows
  | fetchCursor name position => exact alters_fetchCursor hosts place position
  | closeCursor name => exact alters_closeCursor hosts place
  | disposeCursor name => exact alters_disposeCursor hosts place

/-- Where no frame declares the name there is nothing to act on. -/
theorem change_of_undeclared (acts : a.reads = false) (nowhere : a.place? engine s = none) :
    ∃ e, a.change (engine.scope s) = .error e := by
  have missing (name : String) (undeclared : engine.declaring s .cursor name = none) :
      (engine.scope s).cursor name = .error (.undeclaredCursor name) := by
    rw [Engine.cursor_eq, Engine.lookup_eq, undeclared]
    rfl
  cases a with
  | lookUp => cases acts
  | declareVariable | declareView | declareCursor | declarePseudoCursor | declareFunction =>
    cases nowhere
  | setVariable name value =>
    exact ⟨_, Engine.alter_of_undeclared nowhere (fun m => m.insert _ value) _⟩
  | disposeVariable name => exact ⟨_, Engine.alter_of_undeclared nowhere (fun m => m.erase _) _⟩
  | replaceView name view =>
    exact ⟨_, Engine.alter_of_undeclared nowhere (fun m => m.insert name view) _⟩
  | disposeView name => exact ⟨_, Engine.alter_of_undeclared nowhere (fun m => m.erase name) _⟩
  | openCursor name rows =>
    rw [change, Scope.openCursor, missing name nowhere]
    exact ⟨_, rfl⟩
  | fetchCursor name position =>
    rw [change, Scope.fetchCursor, missing name nowhere]
    exact ⟨_, rfl⟩
  | closeCursor name =>
    rw [change, Scope.closeCursor, missing name nowhere]
    exact ⟨_, rfl⟩
  | disposeCursor name =>
    rw [change, Scope.disposeCursor, missing name nowhere]
    exact ⟨_, rfl⟩

/-- What an action does, by the frame on which it works and what that frame declares. -/
inductive Does (a : NameAction) (engine : Engine) (s : Session) :
    Except QueryError (Option a.kind.Meaning) × Engine → Prop
  | refused {result : Except QueryError (Option a.kind.Meaning)}
    (place : ∀ i, a.place? engine s = some i →
      a.entry (((engine.frame i).names a.kind).get? a.name) = none)
    (silent : (∃ e, result = .error e) ∨ a.reads = true ∧ result = .ok none) :
    Does a engine s (result, engine)
  | read {i : Nat} (reads : a.reads = true) (place : a.place? engine s = some i) :
    Does a engine s (.ok (((engine.frame i).names a.kind).get? a.name), engine)
  | changed {i : Nat} {d : Option a.kind.Meaning} {left : Engine} (acts : a.reads = false)
    (place : a.place? engine s = some i)
    (entry : a.entry (((engine.frame i).names a.kind).get? a.name) = some d)
    (redeclared : engine.Redeclared left i a.kind a.name d) :
    Does a engine s (.ok none, left)

theorem does_answer {kind : NameKind} {name : String}
    {missing : Except QueryError (Option kind.Meaning)}
    (silent : (∃ e, missing = .error e) ∨ missing = .ok none) :
    (lookUp kind name).Does engine s
      ((engine.lookup s kind (lookUp kind name).name).elim missing fun d => .ok (some d),
        engine) := by
  rw [Engine.lookup_eq]
  cases place : engine.declaring s kind (lookUp kind name).name with
  | none =>
    have nowhere (i : Nat) : ¬(lookUp kind name).place? engine s = some i :=
      fun there => by cases place.symm.trans there
    exact .refused (fun i there => absurd there (nowhere i)) (silent.imp_right (⟨rfl, ·⟩))
  | some i =>
    obtain ⟨d, held⟩ := Engine.get?_of_declaring place
    have reads : (lookUp kind name).Does engine s
        (.ok (((engine.frame i).names kind).get? (lookUp kind name).name), engine) :=
      .read rfl place
    rw [Option.bind_some, held, Option.elim_some]
    rwa [held] at reads

/-- A name is looked up in the innermost frame that declares it. -/
theorem does_lookUp (kind : NameKind) (name : String) :
    (lookUp kind name).Does engine s (Run.exec ((lookUp kind name).run s) engine) := by
  have found {α : Type} (result : Option α) : .ok result =
      (result.elim (.ok none) fun d => .ok (some d) : Except QueryError (Option α)) := by
    cases result <;> rfl
  cases kind with
  | var =>
    have answers : Run.exec ((lookUp .var name).run s) engine =
        ((engine.lookup s .var (Session.variableName name)).elim
          (.error (.undeclaredVariable (Session.variableName name))) fun d => .ok (some d),
          engine) := by
      rw [run, Run.exec_bind, Session.variableValue, Session.exec_read, Engine.variableValue_eq]
      cases engine.lookup s .var (Session.variableName name) <;> rfl
    rw [answers]
    exact does_answer (.inl ⟨_, rfl⟩)
  | view =>
    have answers : Run.exec ((lookUp .view name).run s) engine =
        (.ok (engine.lookup s .view name), engine) := by
      rw [run, Session.exec_read]
      rfl
    rw [answers, found]
    exact does_answer (.inr rfl)
  | cursor =>
    have answers : Run.exec ((lookUp .cursor name).run s) engine =
        ((engine.lookup s .cursor name).elim
          (.error (.undeclaredCursor name)) fun d => .ok (some d), engine) := by
      rw [run, Run.exec_bind, Session.exec_read, Engine.cursor_eq]
      cases engine.lookup s .cursor name <;> rfl
    rw [answers]
    exact does_answer (.inl ⟨_, rfl⟩)
  | function =>
    have answers : Run.exec ((lookUp .function name).run s) engine =
        (.ok (engine.lookup s .function name), engine) := by
      rw [run, Session.exec_read]
      rfl
    rw [answers, found]
    exact does_answer (.inr rfl)

/-- Whatever an action does to a frame is seen by the sessions that have the frame. -/
theorem Does.sees {result : Except QueryError (Option a.kind.Meaning)} {left : Engine}
    (does : a.Does engine s (result, left)) {f : Nat} (place : a.place? engine s = some f)
    {t : Session} (hosts : engine.Hosts t) : engine.Sees left t f a.kind a.name := by
  cases does with
  | refused | read => exact (Engine.Redeclared.refl engine f a.kind a.name).sees hosts
  | changed _ there _ redeclared =>
    cases place.symm.trans there
    exact redeclared.sees hosts

/-- Every action does one of these. -/
theorem does_run (a : NameAction) (hosts : engine.Hosts s) :
    a.Does engine s (Run.exec (a.run s) engine) := by
  by_cases acts : a.reads = false
  · rw [exec_run acts]
    cases place : a.place? engine s with
    | none =>
      obtain ⟨e, failed⟩ := change_of_undeclared acts place
      rw [failed]
      exact .refused (fun i there => by rw [place] at there; cases there) (.inl ⟨e, rfl⟩)
    | some i =>
      have alters := change_alters acts hosts place
      cases entry : a.entry (((engine.frame i).names a.kind).get? a.name) with
      | none =>
        rw [entry] at alters
        obtain ⟨e, failed⟩ := alters
        rw [failed]
        refine .refused (fun j there => ?_) (.inl ⟨e, rfl⟩)
        cases place.symm.trans there
        exact entry
      | some d =>
        rw [entry] at alters
        obtain ⟨scope, done, redeclared⟩ := alters
        rw [done]
        exact .changed acts place entry redeclared
  · cases a with
    | lookUp kind name => exact does_lookUp kind name
    | _ => exact absurd rfl acts

end NameAction

end TableQuery
