import Mathlib.Data.List.Forall2
import TableQuery.Session.Engine

/-!
# The frames of an engine

What the maps of a frame hold after a change, and what the frames of an engine are after those of a
session were written back. An action on an engine is run as a plain function of it.
-/

namespace TableQuery

/-! ## Names -/

namespace NameMap

variable {α : Type}

@[simp] theorem get?_empty (name : String) : ({} : NameMap α).get? name = none := rfl

theorem lookup_filter (key other : String) (entries : List (String × α)) :
    (entries.filter fun (k, _) => k != key).lookup other =
      if other = key then none else entries.lookup other := by
  induction entries with
  | nil => simp
  | cons entry entries ih =>
    obtain ⟨k, a⟩ := entry
    rw [List.filter_cons, List.lookup_cons]
    by_cases same : k = key
    · rw [if_neg (by simpa using same), ih]
      by_cases looked : other = key
      · rw [if_pos looked, if_pos looked]
      · have differs : (other == k) = false := by simpa [same] using looked
        rw [if_neg looked, if_neg looked, differs]
    · rw [if_pos (by simpa using same), List.lookup_cons, ih]
      by_cases looked : other = k
      · have other_ne : other ≠ key := looked ▸ same
        rw [if_neg other_ne, if_neg other_ne]
      · rw [show (other == k) = false by simpa using looked]

theorem get?_erase (m : NameMap α) (name other : String) :
    (m.erase name).get? other =
      if Text.upper other = Text.upper name then none else m.get? other :=
  lookup_filter _ _ _

theorem get?_insert (m : NameMap α) (name other : String) (a : α) :
    (m.insert name a).get? other =
      if Text.upper other = Text.upper name then some a else m.get? other := by
  rw [get?, insert, List.lookup_cons]
  by_cases same : Text.upper other = Text.upper name
  · rw [if_pos same, show (Text.upper other == Text.upper name) = true by simpa using same]
  · rw [if_neg same, show (Text.upper other == Text.upper name) = false by simpa using same]
    exact (get?_erase m name other).trans (if_neg same)

theorem contains_insert (m : NameMap α) (name other : String) (a : α) :
    (m.insert name a).contains other =
      (decide (Text.upper other = Text.upper name) || m.contains other) := by
  rw [contains, get?_insert]
  by_cases same : Text.upper other = Text.upper name
  · rw [if_pos same, decide_eq_true same]
    rfl
  · rw [if_neg same, decide_eq_false same]
    rfl

/-- Names with the same upper case are the same. -/
theorem get?_of_upper (m : NameMap α) {name other : String}
    (same : Text.upper name = Text.upper other) : m.get? name = m.get? other := by
  rw [get?, get?, same]

end NameMap

/-! ## Actions on an engine -/

namespace Run

variable {α β : Type}

/-- The result of an action and the engine that it leaves. -/
def exec (x : Run α) (engine : Engine) : Except QueryError α × Engine :=
  x.run.run engine

@[simp] theorem exec_get (engine : Engine) : exec (get : Run Engine) engine = (.ok engine, engine) :=
  rfl

@[simp] theorem exec_lift (x : Except QueryError α) (engine : Engine) :
    exec (liftM x : Run α) engine = (x, engine) := rfl

/-- What follows an action runs from its result, on the engine that it leaves. -/
def execThen (f : α → Run β) : Except QueryError α × Engine → Except QueryError β × Engine
  | (.ok a, engine) => exec (f a) engine
  | (.error e, engine) => (.error e, engine)

theorem exec_bind (x : Run α) (f : α → Run β) (engine : Engine) :
    exec (x >>= f) engine = execThen f (exec x engine) := by
  simp only [exec, ExceptT.run_bind, StateT.run_bind]
  generalize StateT.run (ExceptT.run x) engine = r
  rcases r with ⟨_ | _, _⟩ <;> rfl

theorem exec_bind_ok {x : Run α} {engine left : Engine} {a : α} (h : exec x engine = (.ok a, left))
    (f : α → Run β) : exec (x >>= f) engine = exec (f a) left := by
  rw [exec_bind, h]
  rfl

theorem exec_bind_error {x : Run α} {engine left : Engine} {e : QueryError}
    (h : exec x engine = (.error e, left)) (f : α → Run β) :
    exec (x >>= f) engine = (.error e, left) := by
  rw [exec_bind, h]
  rfl

end Run

/-! ## Writing frames back -/

namespace Engine

/-- Frames with some of them replaced. -/
theorem setFrames_frames (engine : Engine) (changes : List (Nat × Frame)) :
    (engine.setFrames changes).frames =
      changes.foldl (fun frames change => frames.set change.1 change.2) engine.frames := rfl

theorem length_setFrames (engine : Engine) (changes : List (Nat × Frame)) :
    (engine.setFrames changes).frames.length = engine.frames.length := by
  rw [setFrames_frames]
  generalize engine.frames = frames
  induction changes generalizing frames with
  | nil => rfl
  | cons change changes ih => rw [List.foldl_cons, ih, List.length_set]

theorem getD_set (frames : List Frame) (i j : Nat) (f : Frame) :
    (frames.set i f).getD j {} = if i = j ∧ i < frames.length then f else frames.getD j {} := by
  rw [List.getD_eq_getElem?_getD, List.getD_eq_getElem?_getD, List.getElem?_set]
  by_cases same : i = j
  · by_cases bound : i < frames.length
    · simp [same, same ▸ bound]
    · subst same
      rw [if_pos rfl, if_neg bound, if_neg fun h => bound h.2, List.getElem?_eq_none (by omega)]
  · rw [if_neg same, if_neg fun h => same h.1]

/-- Every frame is afterwards as it was or as a change says. -/
theorem frame_setFrames (engine : Engine) (changes : List (Nat × Frame)) {P : Nat → Frame → Prop}
    (old : ∀ i, P i (engine.frame i)) (new : ∀ change ∈ changes, P change.1 change.2) (i : Nat) :
    P i ((engine.setFrames changes).frame i) := by
  rw [frame, setFrames_frames]
  simp only [frame] at old
  generalize engine.frames = frames at old
  induction changes generalizing frames with
  | nil => exact old i
  | cons change changes ih =>
    rw [List.forall_mem_cons] at new
    refine ih new.2 (frames.set change.1 change.2) fun j => ?_
    rw [getD_set]
    split
    · rename_i same
      exact same.1 ▸ new.1
    · exact old j

/-- The frames of a session after its scope was written back, if each of them was changed in a
certain way. -/
theorem frame_setScope (engine : Engine) (s : Session) {scope : Scope} {R : Frame → Frame → Prop}
    (refl : ∀ frame, R frame frame) (changed : List.Forall₂ R (engine.scope s).frames scope.frames)
    (i : Nat) : R (engine.frame i) ((engine.setScope s scope).frame i) := by
  have frames : (engine.scope s).frames = (s.innermost :: s.outer).map engine.frame := rfl
  rw [frames, List.forall₂_map_left_iff] at changed
  refine engine.frame_setFrames (P := fun i frame => R (engine.frame i) frame) _ (fun i => refl _)
    ?_ i
  generalize s.innermost :: s.outer = references at changed ⊢
  generalize scope.frames = frames at changed ⊢
  induction changed with
  | nil => simp
  | cons head _ ih => exact List.forall_mem_cons.mpr ⟨head, ih⟩

end Engine

end TableQuery
