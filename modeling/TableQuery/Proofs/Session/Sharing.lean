import TableQuery.Proofs.Session.CursorHistory
import TableQuery.Proofs.Session.NameActions

/-!
# Frames that sessions share

Any number of sessions work on one engine. A session that is opened gets a frame of its own; a clone
starts with the frames of the session that it is taken from. Both then enter and leave blocks
independently, and see of each other what is declared in the frames that both still have.
-/

namespace TableQuery

/-! ## Chains of frames -/

namespace Session

variable {s t : Session} {bound f : Nat}

/-- The outermost frame of a session. -/
def globalFrame (s : Session) : Nat :=
  s.references.getLast (List.cons_ne_nil _ _)

/-- A session within another block. -/
def entered (s : Session) (f : Nat) : Session :=
  { innermost := f, outer := s.references }

theorem eq_of_references (same : s.references = t.references) : s = t := by
  obtain ⟨innermost, outer⟩ := s
  obtain ⟨rfl, rfl⟩ := List.cons.inj same
  rfl

theorem exitBlock_references (s : Session) :
    s.exitBlock.references = if s.outer = [] then s.references else s.references.tail := by
  obtain ⟨innermost, outer⟩ := s
  cases outer <;> rfl

/-- The session `t` has what is left of the frames of `s`, inside them frames of its own, which are
not below a bound. -/
def Continues (s t : Session) (bound : Nat) : Prop :=
  ∃ own m, t.references = own ++ s.references.drop m ∧ m < s.depth ∧ ∀ f ∈ own, bound ≤ f

namespace Continues

theorem refl (s : Session) (bound : Nat) : s.Continues s bound :=
  ⟨[], 0, rfl, Nat.succ_pos _, by simp⟩

theorem enter (h : s.Continues t bound) (new : bound ≤ f) : s.Continues (t.entered f) bound := by
  obtain ⟨own, m, references, kept, owned⟩ := h
  refine ⟨f :: own, m, ?_, kept, List.forall_mem_cons.mpr ⟨new, owned⟩⟩
  rw [List.cons_append, ← references]
  rfl

/-- Leaving a block takes away a frame of its own, or else another one of `s`. -/
theorem exit (h : s.Continues t bound) : s.Continues t.exitBlock bound := by
  obtain ⟨own, m, references, kept, owned⟩ := h
  have depth : s.references.length = s.depth := rfl
  by_cases global : t.outer = []
  · exact ⟨own, m, by rw [exitBlock_references, if_pos global, references], kept, owned⟩
  · have left : t.exitBlock.references = (own ++ s.references.drop m).tail := by
      rw [exitBlock_references, if_neg global, references]
    have many : 1 < (own ++ s.references.drop m).length := by
      rw [← references]
      exact Nat.succ_lt_succ (List.length_pos_iff.mpr global)
    cases own with
    | nil =>
      refine ⟨[], m + 1, ?_, ?_, by simp⟩
      · rw [left, List.nil_append, List.tail_drop, List.nil_append]
      · rw [List.nil_append, List.length_drop] at many
        omega
    | cons g own =>
      exact ⟨own, m, left, kept, fun f hf => owned f (List.mem_cons_of_mem g hf)⟩

theorem mem (h : s.Continues t bound) (hf : f ∈ t.references) : bound ≤ f ∨ f ∈ s.references := by
  obtain ⟨own, m, references, -, owned⟩ := h
  rw [references] at hf
  rcases List.mem_append.mp hf with mine | old
  · exact .inl (owned f mine)
  · exact .inr (List.mem_of_mem_drop old)

theorem globalFrame_eq (h : s.Continues t bound) : t.globalFrame = s.globalFrame := by
  obtain ⟨own, m, references, kept, -⟩ := h
  have rest : s.references.drop m ≠ [] := by
    rw [Ne, List.drop_eq_nil_iff]
    exact Nat.not_le.mpr kept
  simp only [globalFrame, references]
  rw [List.getLast_append_of_ne_nil _ rest, List.getLast_drop]

end Continues

theorem globalFrame_entered (s : Session) (f : Nat) : (s.entered f).globalFrame = s.globalFrame :=
  ((Continues.refl s f).enter (Nat.le_refl f)).globalFrame_eq

theorem globalFrame_exitBlock (s : Session) : s.exitBlock.globalFrame = s.globalFrame :=
  (Continues.refl s 0).exit.globalFrame_eq

/-- Two sessions share a frame only if they have the same global frame. -/
def Related (s t : Session) : Prop :=
  ∀ f ∈ s.references, f ∈ t.references → s.globalFrame = t.globalFrame

theorem Related.symm (h : s.Related t) : t.Related s :=
  fun f ft fs => (h f fs ft).symm

end Session

/-! ## Workspaces -/

/-- An engine and the sessions of an application. -/
structure Workspace where
  engine : Engine
  sessions : List Session := []

/-- Something that happens to an engine or to the session at a place. -/
inductive Workspace.Event where
  | opens
  | clones (i : Nat)
  | enters (i : Nat)
  | leaves (i : Nat)
  | acts (i : Nat) (a : NameAction)

namespace Workspace.Event

/-- The place of the session to which an event happens. -/
def actor? : Event → Option Nat
  | opens => none
  | clones i | enters i | leaves i | acts i _ => some i

/-- What becomes of the session at a place, if the next new frame is `f`. -/
def after (f k : Nat) (s : Session) : Event → Session
  | enters i => if i = k then s.entered f else s
  | leaves i => if i = k then s.exitBlock else s
  | opens | clones _ | acts _ _ => s

end Workspace.Event

namespace Workspace

open Session (Continues)

/-- An engine without sessions. -/
def start (engine : Engine) : Workspace where
  engine := engine

/-- What follows from an event. New sessions come last; where no session is, nothing happens. -/
def step (w : Workspace) : Event → Workspace
  | .opens =>
    match Run.exec Engine.openSession w.engine with
    | (.ok s, engine) => ⟨engine, w.sessions ++ [s]⟩
    | (.error _, engine) => { w with engine }
  | .clones i =>
    match w.sessions[i]? with
    | some s => { w with sessions := w.sessions ++ [s] }
    | none => w
  | .enters i =>
    match w.sessions[i]? with
    | some s =>
      match Run.exec s.enterBlock w.engine with
      | (.ok t, engine) => ⟨engine, w.sessions.set i t⟩
      | (.error _, engine) => { w with engine }
    | none => w
  | .leaves i =>
    match w.sessions[i]? with
    | some s => { w with sessions := w.sessions.set i s.exitBlock }
    | none => w
  | .acts i a =>
    match w.sessions[i]? with
    | some s => { w with engine := (Run.exec (a.run s) w.engine).2 }
    | none => w

/-- What follows from one event after the other. -/
def run (w : Workspace) (events : List Event) : Workspace :=
  events.foldl step w

theorem run_append (w : Workspace) (first second : List Event) :
    w.run (first ++ second) = (w.run first).run second :=
  List.foldl_append

end Workspace

/-- An engine with another frame. -/
def Engine.extended (engine : Engine) : Engine :=
  { engine with frames := engine.frames ++ [{}] }

namespace Engine

variable {engine left : Engine} {s : Session}

@[simp] theorem length_extended (engine : Engine) :
    engine.extended.frames.length = engine.frames.length + 1 :=
  List.length_append

theorem scope_extended (engine : Engine) (s : Session) :
    engine.extended.scope s = engine.scope s := by
  have frames : engine.extended.frame = engine.frame := funext engine.frame_append
  rw [scope, frames, scope]

theorem Hosts.of_le (hosts : engine.Hosts s)
    (length : engine.frames.length ≤ left.frames.length) : left.Hosts s :=
  ⟨hosts.distinct, fun i hi => Nat.lt_of_lt_of_le (hosts.present i hi) length⟩

theorem Hosts.fresh (hosts : engine.Hosts s) : engine.frames.length ∉ s.references :=
  fun mine => Nat.lt_irrefl _ (hosts.present _ mine)

theorem Hosts.entered (hosts : engine.Hosts s) :
    engine.extended.Hosts (s.entered engine.frames.length) where
  distinct := List.nodup_cons.mpr ⟨hosts.fresh, hosts.distinct⟩
  present i hi := by
    rw [length_extended]
    rcases List.mem_cons.mp hi with rfl | old
    · exact Nat.lt_succ_self _
    · exact Nat.lt_succ_of_lt (hosts.present i old)

theorem Hosts.exitBlock (hosts : engine.Hosts s) : engine.Hosts s.exitBlock :=
  ⟨hosts.distinct.sublist (CursorRun.references_exitBlock s),
    fun i hi => hosts.present i ((CursorRun.references_exitBlock s).mem hi)⟩

end Engine

namespace Workspace

open Session (Continues)

variable {w v : Workspace} {e : Event}

/-- All that an event can do. -/
inductive Steps (w : Workspace) : Event → Workspace → Prop
  | idle {e : Event} {i : Nat} (actor : e.actor? = some i) (absent : w.sessions[i]? = none) :
    Steps w e w
  | opened :
    Steps w .opens
      ⟨w.engine.extended, w.sessions ++ [{ innermost := w.engine.frames.length }]⟩
  | cloned {i : Nat} {s : Session} (found : w.sessions[i]? = some s) :
    Steps w (.clones i) { w with sessions := w.sessions ++ [s] }
  | entered {i : Nat} {s : Session} (found : w.sessions[i]? = some s) :
    Steps w (.enters i)
      ⟨w.engine.extended, w.sessions.set i (s.entered w.engine.frames.length)⟩
  | left {i : Nat} {s : Session} (found : w.sessions[i]? = some s) :
    Steps w (.leaves i) { w with sessions := w.sessions.set i s.exitBlock }
  | acted {i : Nat} {s : Session} {a : NameAction} {engine : Engine}
    {result : Except QueryError (Option a.kind.Meaning)} (found : w.sessions[i]? = some s)
    (does : a.Does w.engine s (result, engine)) : Steps w (.acts i a) { w with engine }

/-- Every session refers to different frames of the engine. -/
def Hosted (w : Workspace) : Prop :=
  ∀ s ∈ w.sessions, w.engine.Hosts s

theorem steps_step (hosted : w.Hosted) (e : Event) : w.Steps e (w.step e) := by
  cases e with
  | opens => exact .opened
  | clones i =>
    rw [step]
    cases found : w.sessions[i]? with
    | none => exact .idle rfl found
    | some s => exact .cloned found
  | enters i =>
    rw [step]
    cases found : w.sessions[i]? with
    | none => exact .idle rfl found
    | some s => exact .entered found
  | leaves i =>
    rw [step]
    cases found : w.sessions[i]? with
    | none => exact .idle rfl found
    | some s => exact .left found
  | acts i a =>
    rw [step]
    cases found : w.sessions[i]? with
    | none => exact .idle rfl found
    | some s =>
      exact .acted found (a.does_run (hosted s (List.mem_of_getElem? found)))

theorem length_of_does {engine left : Engine} {s : Session} {a : NameAction}
    {result : Except QueryError (Option a.kind.Meaning)} (does : a.Does engine s (result, left)) :
    left.frames.length = engine.frames.length := by
  cases does with
  | refused | read => rfl
  | changed _ _ _ redeclared => exact redeclared.length

theorem Steps.length_le (h : w.Steps e v) :
    w.engine.frames.length ≤ v.engine.frames.length := by
  cases h with
  | idle | cloned | left => exact Nat.le_refl _
  | opened | entered =>
    rw [Engine.length_extended]
    exact Nat.le_succ _
  | acted _ does => exact Nat.le_of_eq (length_of_does does).symm

/-- Each session stays at its place. -/
theorem Steps.session (h : w.Steps e v) {k : Nat} {s : Session} (found : w.sessions[k]? = some s) :
    v.sessions[k]? = some (e.after w.engine.frames.length k s) := by
  have bound : k < w.sessions.length := (List.getElem?_eq_some_iff.mp found).1
  cases h with
  | @idle _ i actor absent =>
    have other : i ≠ k := by
      rintro rfl
      rw [found] at absent
      cases absent
    have same : e.after w.engine.frames.length k s = s := by
      cases e <;> cases actor <;> first | rfl | exact if_neg other
    rw [same, found]
  | opened | cloned => rw [List.getElem?_append_left bound, found]; rfl
  | @entered i t there =>
    rw [Event.after, List.getElem?_set]
    by_cases same : i = k
    · subst same
      cases found.symm.trans there
      rw [if_pos rfl, if_pos rfl, if_pos bound]
    · rw [if_neg same, if_neg same, found]
  | @left i t there =>
    rw [Event.after, List.getElem?_set]
    by_cases same : i = k
    · subst same
      cases found.symm.trans there
      rw [if_pos rfl, if_pos rfl, if_pos bound]
    · rw [if_neg same, if_neg same, found]
  | acted => exact found

/-- The sessions refer to frames of the engine, each to different ones, and they share frames only
with sessions of the same global frame. -/
structure Sound (w : Workspace) : Prop where
  hosted : w.Hosted
  related : ∀ s ∈ w.sessions, ∀ t ∈ w.sessions, s.Related t

theorem start_sound (engine : Engine) : (start engine).Sound where
  hosted _ hs := by cases hs
  related _ hs := by cases hs

/-- An event brings at most one new chain of frames. -/
theorem Steps.one_new (h : w.Steps e v) (sound : w.Sound) :
    (∀ t ∈ v.sessions, t ∈ w.sessions) ∨
      ∃ s, v.engine.Hosts s ∧ (∀ t ∈ w.sessions, s.Related t) ∧
        ∀ t ∈ v.sessions, t = s ∨ t ∈ w.sessions := by
  have new {f : Nat} {t : Session} (ht : t ∈ w.sessions) (mine : f ∈ t.references) :
      f ≠ w.engine.frames.length := fun same => (sound.hosted t ht).fresh (same ▸ mine)
  cases h with
  | idle | acted => exact .inl fun _ ht => ht
  | opened =>
    refine .inr ⟨{ innermost := w.engine.frames.length }, ⟨by simp [Session.references], ?_⟩, ?_,
      fun t ht => ?_⟩
    · intro i hi
      rw [List.mem_singleton.mp hi, Engine.length_extended]
      exact Nat.lt_succ_self _
    · intro t ht f mine yours
      exact absurd (List.mem_singleton.mp mine) (new ht yours)
    · exact (List.mem_append.mp ht).symm.imp_left List.mem_singleton.mp
  | @cloned i s found =>
    refine .inl fun t ht => ?_
    rcases List.mem_append.mp ht with old | clone
    · exact old
    · exact List.mem_singleton.mp clone ▸ List.mem_of_getElem? found
  | @entered i s found =>
    have hs : s ∈ w.sessions := List.mem_of_getElem? found
    refine .inr ⟨s.entered w.engine.frames.length, (sound.hosted s hs).entered, ?_,
      fun t ht => (List.mem_or_eq_of_mem_set ht).symm⟩
    intro t ht f mine yours
    rw [Session.globalFrame_entered]
    rcases List.mem_cons.mp mine with fresh | old
    · exact absurd fresh (new ht yours)
    · exact sound.related s hs t ht f old yours
  | @left i s found =>
    have hs : s ∈ w.sessions := List.mem_of_getElem? found
    refine .inr ⟨s.exitBlock, (sound.hosted s hs).exitBlock, ?_,
      fun t ht => (List.mem_or_eq_of_mem_set ht).symm⟩
    intro t ht f mine yours
    rw [Session.globalFrame_exitBlock]
    exact sound.related s hs t ht f ((CursorRun.references_exitBlock s).mem mine) yours

theorem Steps.sound (h : w.Steps e v) (sound : w.Sound) : v.Sound := by
  have kept (t : Session) (ht : t ∈ w.sessions) : v.engine.Hosts t :=
    (sound.hosted t ht).of_le h.length_le
  rcases h.one_new sound with old | ⟨s, hosts, related, old⟩
  · exact ⟨fun t ht => kept t (old t ht), fun a ha b hb => sound.related a (old a ha) b (old b hb)⟩
  · refine ⟨fun t ht => ?_, fun a ha b hb => ?_⟩
    · rcases old t ht with rfl | ht
      · exact hosts
      · exact kept t ht
    · rcases old a ha with rfl | ha
      · rcases old b hb with rfl | hb
        · exact fun _ _ _ => rfl
        · exact related b hb
      · rcases old b hb with rfl | hb
        · exact (related a ha).symm
        · exact sound.related a ha b hb

theorem step_sound (sound : w.Sound) (e : Event) : (w.step e).Sound :=
  (steps_step sound.hosted e).sound sound

theorem run_sound (sound : w.Sound) (events : List Event) : (w.run events).Sound := by
  induction events generalizing w with
  | nil => exact sound
  | cons e events ih => exact ih (step_sound sound e)

/-! ## From one moment to a later one -/

/-- The sessions of `w` some events later: each goes on with its chain of frames, and frames that
are new since then are not shared between two of them. -/
structure Grown (w v : Workspace) : Prop where
  length : w.engine.frames.length ≤ v.engine.frames.length
  sessions : ∀ (k : Nat) (s : Session), w.sessions[k]? = some s →
    ∃ t, v.sessions[k]? = some t ∧ s.Continues t w.engine.frames.length
  apart : ∀ i j, i < w.sessions.length → j < w.sessions.length → i ≠ j →
    ∀ a b : Session, v.sessions[i]? = some a → v.sessions[j]? = some b →
      ∀ f ∈ a.references, f ∈ b.references → f < w.engine.frames.length

theorem grown_refl (sound : w.Sound) : w.Grown w where
  length := Nat.le_refl _
  sessions _ s found := ⟨s, found, .refl s _⟩
  apart _ _ _ _ _ a _ found _ f mine _ :=
    (sound.hosted a (List.mem_of_getElem? found)).present f mine

theorem Event.mem_after {f k : Nat} {s : Session} {e : Event} {g : Nat}
    (hg : g ∈ (e.after f k s).references) : g ∈ s.references ∨ g = f ∧ e = .enters k := by
  cases e with
  | enters i =>
    rw [after] at hg
    split at hg
    · subst i
      exact (List.mem_cons.mp hg).symm.imp_right (⟨·, rfl⟩)
    · exact .inl hg
  | leaves i =>
    rw [after] at hg
    split at hg
    · exact .inl ((CursorRun.references_exitBlock s).mem hg)
    · exact .inl hg
  | opens | clones | acts => exact .inl hg

theorem Grown.step {u : Workspace} (grown : w.Grown v) (sound : v.Sound) (h : v.Steps e u) :
    w.Grown u := by
  -- Who was at a place before the step.
  have before (k : Nat) (k_lt : k < w.sessions.length) (a : Session)
      (found : u.sessions[k]? = some a) :
      ∃ s, v.sessions[k]? = some s ∧ a = e.after v.engine.frames.length k s := by
    obtain ⟨s, there, -⟩ := grown.sessions k _ (List.getElem?_eq_getElem k_lt)
    exact ⟨s, there, Option.some.inj (found.symm.trans (h.session there))⟩
  refine ⟨Nat.le_trans grown.length h.length_le, fun k s found => ?_, ?_⟩
  · obtain ⟨t, there, continues⟩ := grown.sessions k s found
    refine ⟨_, h.session there, ?_⟩
    cases e with
    | enters i =>
      rw [Event.after]
      split
      · exact continues.enter grown.length
      · exact continues
    | leaves i =>
      rw [Event.after]
      split
      · exact continues.exit
      · exact continues
    | opens | clones | acts => exact continues
  · intro i j i_lt j_lt ne a b found_a found_b f mine yours
    obtain ⟨s, there_s, rfl⟩ := before i i_lt a found_a
    obtain ⟨t, there_t, rfl⟩ := before j j_lt b found_b
    have fresh (s : Session) (k : Nat) (there : v.sessions[k]? = some s) :
        v.engine.frames.length ∉ s.references :=
      (sound.hosted s (List.mem_of_getElem? there)).fresh
    rcases Event.mem_after mine with old | ⟨rfl, rfl⟩
    · rcases Event.mem_after yours with old' | ⟨rfl, -⟩
      · exact grown.apart i j i_lt j_lt ne s t there_s there_t f old old'
      · exact absurd old (fresh s i there_s)
    · rcases Event.mem_after yours with old' | ⟨-, other⟩
      · exact absurd old' (fresh t j there_t)
      · cases other
        exact absurd rfl ne

theorem Grown.run (grown : w.Grown v) (sound : v.Sound) (events : List Event) :
    w.Grown (v.run events) := by
  induction events generalizing v with
  | nil => exact grown
  | cons e events ih =>
    exact ih (grown.step sound (steps_step sound.hosted e)) (step_sound sound e)

theorem run_grown (sound : w.Sound) (events : List Event) : w.Grown (w.run events) :=
  (grown_refl sound).run sound events

theorem scope_of_steps (h : w.Steps e v) (s : Session)
    (apart : ∀ i t a f, e = .acts i a → w.sessions[i]? = some t → a.reads = false →
      a.place? w.engine t = some f → f ∉ s.references) :
    v.engine.scope s = w.engine.scope s := by
  cases h with
  | idle | cloned | left => rfl
  | opened | entered => exact w.engine.scope_extended s
  | acted found does =>
    cases does with
    | refused | read => rfl
    | changed acts place _ redeclared =>
      refine Engine.scope_congr fun j hj => redeclared.others j fun same => ?_
      exact apart _ _ _ _ rfl found acts place (same ▸ hj)

theorem run_opened (sound : w.Sound) (later : List Event) {i : Nat} {a b : Session}
    (i_lt : i < w.sessions.length) (there_a : ((w.step .opens).run later).sessions[i]? = some a)
    (there_b : ((w.step .opens).run later).sessions[w.sessions.length]? = some b) :
    a.references.Disjoint b.references := by
  have grown := run_grown (step_sound sound .opens) later
  have opened : w.step .opens
      = ⟨w.engine.extended, w.sessions ++ [{ innermost := w.engine.frames.length }]⟩ := rfl
  rw [opened] at grown there_a there_b
  have old : (w.sessions ++ [{ innermost := w.engine.frames.length }])[i]?
      = some w.sessions[i] := by
    rw [List.getElem?_append_left i_lt, List.getElem?_eq_getElem i_lt]
  obtain ⟨a', there, from_old⟩ := grown.sessions i _ old
  cases there_a.symm.trans there
  obtain ⟨b', there, from_new⟩ := grown.sessions w.sessions.length _ List.getElem?_concat_length
  cases there_b.symm.trans there
  intro f mine yours
  have shared : f < w.engine.extended.frames.length :=
    grown.apart i w.sessions.length (by simp; omega) (by simp) (Nat.ne_of_lt i_lt) a b there_a
      there_b f mine yours
  have in_old := (from_old.mem mine).resolve_left (Nat.not_le.mpr shared)
  have in_new := (from_new.mem yours).resolve_left (Nat.not_le.mpr shared)
  obtain rfl : f = w.engine.frames.length := List.mem_singleton.mp in_new
  exact (sound.hosted _ (List.getElem_mem i_lt)).fresh in_old

theorem run_cloned (sound : w.Sound) (later : List Event) {i : Nat} {s a b : Session}
    (found : w.sessions[i]? = some s)
    (there_a : ((w.step (.clones i)).run later).sessions[i]? = some a)
    (there_b : ((w.step (.clones i)).run later).sessions[w.sessions.length]? = some b) :
    s.Continues a w.engine.frames.length ∧ s.Continues b w.engine.frames.length ∧
      ∀ f ∈ a.references, f ∈ b.references → f ∈ s.references := by
  have grown := run_grown (step_sound sound (.clones i)) later
  have cloned : w.step (.clones i) = { w with sessions := w.sessions ++ [s] } := by
    rw [step, found]
  rw [cloned] at grown there_a there_b
  have i_lt : i < w.sessions.length := (List.getElem?_eq_some_iff.mp found).1
  have old : (w.sessions ++ [s])[i]? = some s := by rw [List.getElem?_append_left i_lt, found]
  obtain ⟨a', there, from_a⟩ := grown.sessions i s old
  cases there_a.symm.trans there
  obtain ⟨b', there, from_b⟩ := grown.sessions w.sessions.length s List.getElem?_concat_length
  cases there_b.symm.trans there
  refine ⟨from_a, from_b, fun f mine yours => ?_⟩
  have shared : f < w.engine.frames.length :=
    grown.apart i w.sessions.length (by simp; omega) (by simp) (Nat.ne_of_lt i_lt) a b there_a
      there_b f mine yours
  exact (from_a.mem mine).resolve_left (Nat.not_le.mpr shared)

/-! ## Blocks that only declare -/

/-- The number of blocks of a session that are open after some events, if none is left that was
entered before. -/
def Event.openBlocks (i : Nat) : Nat → List Event → Option Nat
  | n, [] => some n
  | n, .enters j :: events => openBlocks i (if j = i then n + 1 else n) events
  | n, .leaves j :: events =>
    if j = i then if n = 0 then none else openBlocks i (n - 1) events
    else openBlocks i n events
  | n, .opens :: events | n, .clones _ :: events | n, .acts _ _ :: events => openBlocks i n events

/-- During the events the session at a place only declares names and looks them up, and no other
session acts on a frame of `s`. -/
def OnlyDeclares (w : Workspace) (i : Nat) (s : Session) (events : List Event) : Prop :=
  ∀ before j a after, events = before ++ .acts j a :: after → a.reads = false →
    if j = i then a.declares = true
    else ∀ t f, (w.run before).sessions[j]? = some t →
      a.place? (w.run before).engine t = some f → f ∉ s.references

theorem OnlyDeclares.later {i : Nat} {s : Session} {events : List Event}
    (h : w.OnlyDeclares i s (e :: events)) : (w.step e).OnlyDeclares i s events :=
  fun before j a after split acts => h (e :: before) j a after (by rw [split]; rfl) acts

/-- The session at a place is some blocks inside `s`, whose frames are as they were in `w`. -/
structure Inside (w : Workspace) (i : Nat) (s : Session) (n : Nat) (v : Workspace) : Prop where
  session : ∃ t own, v.sessions[i]? = some t ∧ t.references = own ++ s.references ∧ own.length = n
  unchanged : v.engine.scope s = w.engine.scope s

/-- The blocks that are open inside `s` after an event are counted by what its frames were. -/
theorem Event.after_inside {i n m : Nat} {s t : Session} {own : List Nat} (g : Nat)
    (references : t.references = own ++ s.references) (length : own.length = n + 1)
    {events : List Event} (blocks : Event.openBlocks i n (e :: events) = some m) :
    ∃ k own', (e.after g i t).references = own' ++ s.references ∧ own'.length = k + 1 ∧
      Event.openBlocks i k events = some m := by
  cases e with
  | enters j =>
    by_cases mine : j = i
    · rw [Event.openBlocks, if_pos mine] at blocks
      refine ⟨n + 1, g :: own, ?_, ?_, blocks⟩
      · rw [Event.after, if_pos mine, List.cons_append, ← references]
        rfl
      · rw [List.length_cons, length]
    · rw [Event.openBlocks, if_neg mine] at blocks
      rw [Event.after, if_neg mine]
      exact ⟨n, own, references, length, blocks⟩
  | leaves j =>
    by_cases mine : j = i
    · rw [Event.openBlocks, if_pos mine] at blocks
      rw [Event.after, if_pos mine]
      cases n with
      | zero => cases blocks
      | succ n =>
        cases own with
        | nil => cases length
        | cons h own =>
          have outer : t.outer = own ++ s.references := (List.cons.inj references).2
          have deep : t.outer ≠ [] := by
            rw [outer]
            exact List.append_ne_nil_of_right_ne_nil own (List.cons_ne_nil _ _)
          refine ⟨n, own, ?_, Nat.succ.inj length, blocks⟩
          rw [Session.exitBlock_references, if_neg deep, references]
          rfl
    · rw [Event.openBlocks, if_neg mine] at blocks
      rw [Event.after, if_neg mine]
      exact ⟨n, own, references, length, blocks⟩
  | opens | clones | acts => exact ⟨n, own, references, length, blocks⟩

/-- From inside a block no event of one that only declares reaches the frames around it. -/
theorem Inside.unchanged_of_steps {i n : Nat} {s : Session} {u : Workspace}
    (inside : w.Inside i s (n + 1) v) (sound : v.Sound) (h : v.Steps e u) {events : List Event}
    (only : v.OnlyDeclares i s (e :: events)) : u.engine.scope s = w.engine.scope s := by
  obtain ⟨t, own, there, references, length⟩ := inside.session
  refine (scope_of_steps h s fun j r a f event found acts place mine => ?_).trans inside.unchanged
  subst event
  have allowed := only [] j a events rfl acts
  by_cases own_action : j = i
  · -- A declaration works on the innermost frame, which is none of those of `s`.
    subst own_action
    cases found.symm.trans there
    rw [if_pos rfl] at allowed
    rw [NameAction.place?, if_pos allowed] at place
    cases place
    have distinct := (sound.hosted t (List.mem_of_getElem? there)).distinct
    rw [references] at distinct
    cases own with
    | nil => cases length
    | cons g own =>
      have first : t.innermost = g := (List.cons.inj references).1
      rw [List.cons_append, List.nodup_cons] at distinct
      exact distinct.1 (List.mem_append_right own (first ▸ mine))
  · rw [if_neg own_action] at allowed
    exact allowed r f found place mine

theorem Inside.step {i n : Nat} {s : Session} {u : Workspace} (inside : w.Inside i s (n + 1) v)
    (sound : v.Sound) (h : v.Steps e u) {events : List Event}
    (only : v.OnlyDeclares i s (e :: events)) {m : Nat}
    (blocks : Event.openBlocks i n (e :: events) = some m) :
    ∃ k, w.Inside i s (k + 1) u ∧ Event.openBlocks i k events = some m := by
  have unchanged := inside.unchanged_of_steps sound h only
  obtain ⟨t, own, there, references, length⟩ := inside.session
  obtain ⟨k, own', references', length', blocks'⟩ :=
    Event.after_inside v.engine.frames.length references length blocks
  exact ⟨k, ⟨⟨_, own', h.session there, references', length'⟩, unchanged⟩, blocks'⟩

theorem Inside.run {i n m : Nat} {s : Session} {events : List Event}
    (inside : w.Inside i s (n + 1) v) (sound : v.Sound) (only : v.OnlyDeclares i s events)
    (blocks : Event.openBlocks i n events = some m) : w.Inside i s (m + 1) (v.run events) := by
  induction events generalizing v n with
  | nil =>
    cases blocks
    exact inside
  | cons e events ih =>
    obtain ⟨k, inside, blocks⟩ := inside.step sound (steps_step sound.hosted e) only blocks
    exact ih inside (step_sound sound e) only.later blocks

/-- After a block in which it only declares names a session is what it was, with the same frames. -/
theorem run_block (sound : w.Sound) {i : Nat} {s : Session} (found : w.sessions[i]? = some s)
    {events : List Event} (blocks : Event.openBlocks i 0 events = some 0)
    (only : (w.step (.enters i)).OnlyDeclares i s events) :
    (w.run (.enters i :: events ++ [.leaves i])).sessions[i]? = some s ∧
      (w.run (.enters i :: events ++ [.leaves i])).engine.scope s = w.engine.scope s := by
  have enters := steps_step sound.hosted (.enters i)
  have entered : w.Inside i s 1 (w.step (.enters i)) := by
    have there := enters.session found
    rw [Event.after, if_pos rfl] at there
    refine ⟨⟨_, [w.engine.frames.length], there, rfl, rfl⟩, scope_of_steps enters s ?_⟩
    intro j t a f event
    cases event
  have sound := step_sound sound (.enters i)
  obtain ⟨⟨t, own, there, references, length⟩, unchanged⟩ := entered.run sound only blocks
  have sound := run_sound sound events
  have leaves := steps_step sound.hosted (.leaves i)
  have stays := leaves.session there
  rw [Event.after, if_pos rfl] at stays
  obtain ⟨g, rfl⟩ := List.length_eq_one_iff.mp length
  have outer : t.outer = s.references := (List.cons.inj references).2
  have back : t.exitBlock = s := by
    refine Session.eq_of_references ?_
    rw [Session.exitBlock_references, if_neg (outer ▸ List.cons_ne_nil _ _), ← outer]
    rfl
  rw [back] at stays
  have last : w.run (.enters i :: events ++ [.leaves i])
      = ((w.step (.enters i)).run events).step (.leaves i) := run_append (w.step _) events [_]
  rw [last]
  refine ⟨stays, (scope_of_steps leaves s ?_).trans unchanged⟩
  intro j t a f event
  cases event

theorem Steps.others (h : w.Steps e v) {i j : Nat} {t : Session}
    (block : e = .enters i ∨ e = .leaves i) (other : j ≠ i) (found : w.sessions[j]? = some t) :
    v.sessions[j]? = some t ∧ v.engine.scope t = w.engine.scope t := by
  have stays := h.session found
  have scope := scope_of_steps h t fun k r a f event => by
    subst event
    rcases block with block | block <;> cases block
  rcases block with rfl | rfl <;>
    exact ⟨stays.trans (congrArg some (if_neg other.symm)), scope⟩

/-- Frames are shared as chains say: after any events of any number of sessions

* every session keeps its global frame for good;
* an action works on the innermost frame that declares its name, or on the innermost one if it
  declares it, and the sessions that see it are those whose chains have the frame;
* a session that is opened has a frame of its own, which with all that is entered from there is
  never shared with a session that was there; sessions with different global frames share nothing;
* a clone starts with the same frames, and the two never share any others;
* entering and leaving blocks changes nothing that another session sees;
* after a block in which it only declares names, and in which no other session acts on the frames
  around it, a session sees what it saw before. -/
theorem sessions_share_frames (engine : Engine) (past : List Event) :
    let w := (start engine).run past
    (∀ (i : Nat) (s : Session), w.sessions[i]? = some s → s.globalFrame < w.engine.frames.length ∧
      ∀ later, ∃ t, (w.run later).sessions[i]? = some t ∧ t.globalFrame = s.globalFrame) ∧
    (∀ (i : Nat) (s : Session) (a : NameAction), w.sessions[i]? = some s →
      (w.step (.acts i a)).sessions = w.sessions ∧
      (w.step (.acts i a)).engine = (Run.exec (a.run s) w.engine).2 ∧
      a.Does w.engine s (Run.exec (a.run s) w.engine) ∧
      ∀ f, a.place? w.engine s = some f →
        ∀ t ∈ w.sessions, w.engine.Sees (w.step (.acts i a)).engine t f a.kind a.name) ∧
    ((w.step .opens).sessions = w.sessions ++ [{ innermost := w.engine.frames.length }] ∧
      (∀ later i a b, i < w.sessions.length →
        ((w.step .opens).run later).sessions[i]? = some a →
        ((w.step .opens).run later).sessions[w.sessions.length]? = some b →
        a.references.Disjoint b.references) ∧
      ∀ s ∈ w.sessions, ∀ t ∈ w.sessions, s.globalFrame ≠ t.globalFrame →
        s.references.Disjoint t.references) ∧
    (∀ (i : Nat) (s : Session), w.sessions[i]? = some s →
      (w.step (.clones i)).sessions = w.sessions ++ [s] ∧
      ∀ later a b, ((w.step (.clones i)).run later).sessions[i]? = some a →
        ((w.step (.clones i)).run later).sessions[w.sessions.length]? = some b →
        s.Continues a w.engine.frames.length ∧ s.Continues b w.engine.frames.length ∧
        ∀ f ∈ a.references, f ∈ b.references → f ∈ s.references) ∧
    (∀ (i : Nat) (e : Event), e = .enters i ∨ e = .leaves i →
      ∀ (j : Nat) (t : Session), j ≠ i → w.sessions[j]? = some t →
        (w.step e).sessions[j]? = some t ∧ (w.step e).engine.scope t = w.engine.scope t) ∧
    ∀ (i : Nat) (s : Session) (events : List Event), w.sessions[i]? = some s →
      Event.openBlocks i 0 events = some 0 → (w.step (.enters i)).OnlyDeclares i s events →
      (w.run (.enters i :: events ++ [.leaves i])).sessions[i]? = some s ∧
      (w.run (.enters i :: events ++ [.leaves i])).engine.scope s = w.engine.scope s := by
  intro w
  have sound : w.Sound := run_sound (start_sound engine) past
  refine ⟨fun i s found => ⟨?_, fun later => ?_⟩, fun i s a found => ?_, ⟨rfl, ?_, ?_⟩,
    fun i s found => ?_, ?_, ?_⟩
  · exact (sound.hosted s (List.mem_of_getElem? found)).present _ (List.getLast_mem _)
  · obtain ⟨t, there, continues⟩ := (run_grown sound later).sessions i s found
    exact ⟨t, there, continues.globalFrame_eq⟩
  · have acted : w.step (.acts i a) = { w with engine := (Run.exec (a.run s) w.engine).2 } := by
      rw [step, found]
    rw [acted]
    have does := a.does_run (sound.hosted s (List.mem_of_getElem? found))
    exact ⟨rfl, rfl, does, fun f place t ht => does.sees place (sound.hosted t ht)⟩
  · exact fun later i a b i_lt there_a there_b => run_opened sound later i_lt there_a there_b
  · intro s hs t ht other f mine yours
    exact other (sound.related s hs t ht f mine yours)
  · have cloned : w.step (.clones i) = { w with sessions := w.sessions ++ [s] } := by
      rw [step, found]
    exact ⟨by rw [cloned], fun later a b there_a there_b =>
      run_cloned sound later found there_a there_b⟩
  · intro i e block j t other found
    exact (steps_step sound.hosted e).others block other found
  · exact fun i s events found blocks only => run_block sound found blocks only

/-- A session with a variable, a clone of it and a session of its own. -/
def clonedAndOpened : Workspace :=
  (start {}).run [.opens, .acts 0 (.declareVariable "@x" (.integer 1)), .clones 0, .opens]

/-- What the clone assigns is seen by the session and not by the third one; a variable of a block
hides the one outside until the block is left. -/
theorem sessions_share_frames_of_clonedAndOpened :
    let w := clonedAndOpened
    let assigned := (w.step (.acts 1 (.setVariable "@X" (.integer 2)))).engine
    w.sessions = [⟨0, []⟩, ⟨0, []⟩, ⟨1, []⟩] ∧
    w.engine.Sees assigned ⟨0, []⟩ 0 .var "X" ∧ assigned.scope ⟨1, []⟩ = w.engine.scope ⟨1, []⟩ ∧
    (w.run [.enters 0, .acts 0 (.declareVariable "@x" (.integer 3)), .leaves 0]).engine.scope
      ⟨0, []⟩ = w.engine.scope ⟨0, []⟩ := by
  intro w assigned
  obtain ⟨-, acts, -, -, -, blocks⟩ := sessions_share_frames {}
    [.opens, .acts 0 (.declareVariable "@x" (.integer 1)), .clones 0, .opens]
  obtain ⟨-, -, -, sees⟩ := acts 1 ⟨0, []⟩ (.setVariable "@X" (.integer 2)) rfl
  have place : NameAction.place? (.setVariable "@X" (.integer 2)) w.engine ⟨0, []⟩ = some 0 := by
    decide +kernel
  have only : (w.step (.enters 0)).OnlyDeclares 0 ⟨0, []⟩
      [.acts 0 (.declareVariable "@x" (.integer 3))] := by
    intro before j a after split acts
    cases before with
    | nil =>
      cases split
      rw [if_pos rfl]
      rfl
    | cons e before =>
      obtain ⟨-, rest⟩ := List.cons.inj split
      simp at rest
  refine ⟨rfl, sees 0 place ⟨0, []⟩ (List.mem_of_getElem? (i := 0) rfl), ?_, ?_⟩
  · exact (sees 0 place ⟨1, []⟩ (List.mem_of_getElem? (i := 2) rfl)).apart (by decide)
  · exact (blocks 0 ⟨0, []⟩ _ rfl rfl only).2

end Workspace

end TableQuery
