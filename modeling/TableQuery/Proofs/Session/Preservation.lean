import TableQuery.Proofs.Evaluation.Frame
import TableQuery.Proofs.Session.Frames

/-!
# What a query leaves of a session

Whether a query succeeds or fails, the frames keep their views, cursors and functions and the
variables that they declare. Only a variable to which the query assigns somewhere can have another
value afterwards.
-/

namespace TableQuery

/-! ## Assigned names -/

/-- The names to which some of the parts assign. -/
def assignedNames (ps : List Part) : List String :=
  ps.filterMap fun
    | .expr (.assign name _) => some name
    | _ => none

/-- The names to which a query assigns, in subqueries and inline tables, too. -/
def Query.assigned (q : Query) : List String :=
  assignedNames q.parts

theorem mem_assignedNames {ps : List Part} {name : String} {e : Expr}
    (h : .expr (.assign name e) ∈ ps) : name ∈ assignedNames ps :=
  List.mem_filterMap.mpr ⟨_, h, rfl⟩

/-! ## Frames -/

/-- The frame `b` is the frame `a`, but for the values of variables of certain names. -/
structure Frame.KeptBut (names : List String) (a b : Frame) : Prop where
  views : b.views = a.views
  cursors : b.cursors = a.cursors
  functions : b.functions = a.functions
  declared : ∀ name, b.vars.contains name = a.vars.contains name
  values : ∀ name, (∀ other ∈ names, Text.upper other ≠ Text.upper name) →
    b.vars.get? name = a.vars.get? name

namespace Frame.KeptBut

variable {names : List String} {a b c : Frame}

theorem refl (names : List String) (a : Frame) : a.KeptBut names a :=
  ⟨rfl, rfl, rfl, fun _ => rfl, fun _ _ => rfl⟩

theorem trans (h : a.KeptBut names b) (h' : b.KeptBut names c) : a.KeptBut names c where
  views := h'.views.trans h.views
  cursors := h'.cursors.trans h.cursors
  functions := h'.functions.trans h.functions
  declared name := (h'.declared name).trans (h.declared name)
  values name unnamed := (h'.values name unnamed).trans (h.values name unnamed)

/-- A declared variable of one of the names takes another value. -/
theorem insert {name : String} (declared : a.vars.contains name = true) (named : name ∈ names)
    (v : Value) : a.KeptBut names { a with vars := a.vars.insert name v } where
  views := rfl
  cursors := rfl
  functions := rfl
  declared other := by
    rw [NameMap.contains_insert]
    by_cases same : Text.upper other = Text.upper name
    · rw [decide_eq_true same, NameMap.contains, NameMap.get?_of_upper _ same]
      exact declared.symm
    · rw [decide_eq_false same, Bool.false_or]
  values other unnamed := by
    rw [NameMap.get?_insert, if_neg fun same => unnamed name named same.symm]

end Frame.KeptBut

/-! ## Scopes -/

namespace Scope

/-- A change to one frame, seen on all of them. -/
theorem forall₂_updateFrames {f : Frame → Option Frame} {R : Frame → Frame → Prop}
    (refl : ∀ frame, R frame frame) (change : ∀ a b, f a = some b → R a b)
    {frames changed : List Frame} (h : updateFrames f frames = some changed) :
    List.Forall₂ R frames changed := by
  induction frames generalizing changed with
  | nil => cases h
  | cons frame frames ih =>
    rw [updateFrames] at h
    cases found : f frame with
    | some b =>
      rw [found] at h
      cases h
      exact .cons (change frame b found) (List.forall₂_same.mpr fun g _ => refl g)
    | none =>
      rw [found] at h
      obtain ⟨rest, later, rfl⟩ := Option.map_eq_some_iff.mp h
      exact .cons (refl frame) (ih later)

theorem forall₂_update {f : Frame → Option Frame} {R : Frame → Frame → Prop}
    (refl : ∀ frame, R frame frame) (change : ∀ a b, f a = some b → R a b) {s t : Scope}
    {missing : QueryError} (h : s.update missing f = .ok t) :
    List.Forall₂ R s.frames t.frames := by
  unfold update update? at h
  cases updated : updateFrames f s.frames with
  | none => rw [updated] at h; cases h
  | some changed =>
    rw [updated] at h
    cases changed with
    | nil => cases h
    | cons innermost outer =>
      cases h
      exact forall₂_updateFrames refl change updated

/-- An assignment gives one declared variable another value. -/
theorem setVariable_keptBut {names : List String} {name : String} (named : name ∈ names) {v : Value}
    {s t : Scope} (h : s.setVariable name v = .ok t) :
    List.Forall₂ (Frame.KeptBut names) s.frames t.frames := by
  refine forall₂_update (Frame.KeptBut.refl names) (fun a b changed => ?_) h
  split at changed
  · cases changed
    exact .insert ‹_› named v
  · cases changed

end Scope

theorem forall₂_trans {α : Type} {R : α → α → Prop} (trans : ∀ a b c, R a b → R b c → R a c)
    {as bs cs : List α} (h : List.Forall₂ R as bs) (h' : List.Forall₂ R bs cs) :
    List.Forall₂ R as cs := by
  induction h generalizing cs with
  | nil => exact h'
  | cons head _ ih =>
    cases h' with
    | cons head' tail' => exact .cons (trans _ _ _ head head') (ih tail')

/-! ## Queries -/

/-- The frames of the session are those of `s`, but for the values of variables to which the parts
assign. -/
theorem keptBut_agreement (ps : List Part) (s : Scope) :
    Env.Agreement (fun t => List.Forall₂ (Frame.KeptBut (assignedNames ps)) s.frames t.frames)
      (· ∈ ps) Eq :=
  .refl fun _ _ written _ _ _ kept assigned =>
    forall₂_trans (fun _ _ _ => .trans) kept
      (Scope.setVariable_keptBut (mem_assignedNames written) assigned)

/-- An evaluation leaves every frame of the scope as it was, but for the values of variables to
which the query assigns. -/
theorem Query.run_keptBut (q : Query) (env : Env) (s : Scope) :
    List.Forall₂ (Frame.KeptBut q.assigned) s.frames (Eval.exec (q.run env) s).2.frames :=
  (q.run_same (keptBut_agreement q.parts s) (fun _ part => part) rfl).keeps
    (List.forall₂_same.mpr fun frame _ => .refl _ frame)

theorem Session.exec_evaluate {α : Type} (session : Session) (f : Env → Eval α) (engine : Engine) :
    Run.exec (session.evaluate f) engine =
      ((Eval.exec (f { settings := engine.settings }) (engine.scope session)).1,
        engine.setScope session
          (Eval.exec (f { settings := engine.settings }) (engine.scope session)).2) :=
  rfl

/-- A query disturbs nothing: in every environment and every chain of frames, and for every session
of an engine, whether it succeeds or fails, all frames keep their views, cursors, functions and
declared variables. Only variables to which the query assigns can have other values afterwards. The
engine keeps its tables and settings. -/
theorem query_keeps_declarations (q : Query) :
    (∀ env s, List.Forall₂ (Frame.KeptBut q.assigned) s.frames
      (Eval.exec (q.run env) s).2.frames) ∧
    ∀ (session : Session) (engine : Engine),
      (Run.exec (session.evaluate q.run) engine).2.settings = engine.settings ∧
      (Run.exec (session.evaluate q.run) engine).2.frames.length = engine.frames.length ∧
      ∀ i, (engine.frame i).KeptBut q.assigned
        ((Run.exec (session.evaluate q.run) engine).2.frame i) := by
  refine ⟨q.run_keptBut, fun session engine => ?_⟩
  rw [Session.exec_evaluate]
  refine ⟨rfl, engine.length_setFrames _, fun i => ?_⟩
  exact engine.frame_setScope session (Frame.KeptBut.refl _) (q.run_keptBut _ _) i

end TableQuery
