import TableQuery.Proofs.Evaluation.Meaning

/-!
# What an evaluation leaves alone

An evaluation may change nothing but the values of declared variables, and those only where the
query writes an assignment.
-/

namespace TableQuery

/-! ## The scope -/

namespace Scope

/-- The views that the frames declare. -/
def declaredViews (s : Scope) : List (NameMap View) :=
  s.frames.map Frame.views

/-- The functions that the frames declare. -/
def declaredFunctions (s : Scope) : List (NameMap UserFunction) :=
  s.frames.map Frame.functions

theorem function?_eq (s : Scope) (name : String) :
    s.function? name = s.declaredFunctions.findSome? fun functions => functions.get? name := by
  rw [declaredFunctions, List.findSome?_map]
  rfl

theorem map_updateFrames {α : Type} {f : Frame → Option Frame} {g : Frame → α}
    (hf : ∀ a b, f a = some b → g b = g a) (frames changed : List Frame)
    (h : updateFrames f frames = some changed) : changed.map g = frames.map g := by
  induction frames generalizing changed with
  | nil => cases h
  | cons frame frames ih =>
    rw [updateFrames] at h
    cases hfr : f frame with
    | some b =>
      rw [hfr] at h
      cases h
      rw [List.map_cons, List.map_cons, hf frame b hfr]
    | none =>
      rw [hfr] at h
      obtain ⟨rest, hr, rfl⟩ := Option.map_eq_some_iff.mp h
      rw [List.map_cons, List.map_cons, ih rest hr]

/-- What no change to a frame touches is the same in all frames afterwards. -/
theorem map_frames_update {α : Type} {f : Frame → Option Frame} {g : Frame → α}
    (hf : ∀ a b, f a = some b → g b = g a) {s t : Scope} {missing : QueryError}
    (h : s.update missing f = .ok t) : t.frames.map g = s.frames.map g := by
  unfold update update? at h
  cases hu : updateFrames f s.frames with
  | none => rw [hu] at h; cases h
  | some changed =>
    rw [hu] at h
    cases changed with
    | nil => cases h
    | cons innermost outer =>
      cases h
      exact map_updateFrames hf _ _ hu

/-- An assignment touches nothing of a frame but its variables. -/
theorem map_frames_setVariable {α : Type} {g : Frame → α}
    (hg : ∀ (frame : Frame) vars, g { frame with vars := vars } = g frame) {s t : Scope}
    {name : String} {v : Value} (h : s.setVariable name v = .ok t) :
    t.frames.map g = s.frames.map g := by
  refine map_frames_update (fun a b hab => ?_) h
  split at hab
  · cases hab
    exact hg a _
  · cases hab

theorem declaredViews_setVariable {s t : Scope} {name : String} {v : Value}
    (h : s.setVariable name v = .ok t) : t.declaredViews = s.declaredViews :=
  map_frames_setVariable (fun _ _ => rfl) h

theorem declaredFunctions_setVariable {s t : Scope} {name : String} {v : Value}
    (h : s.setVariable name v = .ok t) : t.declaredFunctions = s.declaredFunctions :=
  map_frames_setVariable (fun _ _ => rfl) h

end Scope

/-! ## Evaluations -/

/-- Whether a part is an assignment. -/
def Part.assigns : Part → Bool
  | expr (.assign _ _) => true
  | _ => false

/-- No part, at any depth, is an assignment. -/
def Unassigned (ps : List Part) : Prop :=
  AllParts (fun p => p.assigns = false) ps

/-- An environment is only ever exchanged for itself. -/
theorem Env.Agreement.refl {I : Scope → Prop} {P : Part → Prop}
    (assign : ∀ name e, P (.expr (.assign name e)) →
      ∀ v s t, I s → s.setVariable name v = .ok t → I t) : Env.Agreement I P Eq where
  settings h := h ▸ rfl
  inlineTable h _ := h ▸ rfl
  bind h _ := h ▸ rfl
  rebind h _ _ := h ▸ rfl
  detached h := h ▸ rfl
  withInlineTable h _ := h ▸ rfl
  withRecursive h _ := h ▸ rfl
  column h _ := h ▸ rfl
  reference h _ _ _ := h ▸ rfl
  known h _ := h ▸ rfl
  group h _ := h ▸ rfl
  assign h := assign _ _ h

/-- Without assignments the scope stays as it is. -/
theorem unassigned_agreement (s : Scope) :
    Env.Agreement (· = s) (fun p => p.assigns = false) Eq :=
  .refl fun _ _ h => by cases h

/-- The views of the session stay as they are. -/
theorem views_agreement (views : List (NameMap View)) :
    Env.Agreement (fun s => s.declaredViews = views) (fun _ => True) Eq :=
  .refl fun _ _ _ _ _ _ hs ht => (Scope.declaredViews_setVariable ht).trans hs

/-- The functions of the session stay as they are. -/
theorem functions_agreement (functions : List (NameMap UserFunction)) :
    Env.Agreement (fun s => s.declaredFunctions = functions) (fun _ => True) Eq :=
  .refl fun _ _ _ _ _ _ hs ht => (Scope.declaredFunctions_setVariable ht).trans hs

end TableQuery
