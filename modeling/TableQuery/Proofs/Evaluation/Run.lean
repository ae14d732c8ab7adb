import TableQuery.Evaluation.Stage

/-!
# Running evaluations and stages

What a computation gives, and the scope and the view that it leaves, as plain functions of those
from which it starts. Later modules reason about these functions and do not open the monads.
-/

namespace TableQuery

/-! ## Evaluations -/

namespace Eval

variable {α β : Type}

/-- The result of a computation and the scope that it leaves. -/
def exec (x : Eval α) (s : Scope) : Except QueryError α × Scope :=
  x.run.run s

@[simp] theorem exec_pure (a : α) (s : Scope) : exec (pure a) s = (.ok a, s) := rfl

@[simp] theorem exec_get (s : Scope) : exec (get : Eval Scope) s = (.ok s, s) := rfl

@[simp] theorem exec_lift (x : Except QueryError α) (s : Scope) :
    exec (liftM x : Eval α) s = (x, s) := rfl

/-- What follows a computation runs from its result, in the scope that it leaves. -/
def execThen (f : α → Eval β) : Except QueryError α × Scope → Except QueryError β × Scope
  | (.ok a, s) => exec (f a) s
  | (.error e, s) => (.error e, s)

theorem exec_bind (x : Eval α) (f : α → Eval β) (s : Scope) :
    exec (x >>= f) s = execThen f (exec x s) := by
  simp only [exec, ExceptT.run_bind, StateT.run_bind]
  generalize StateT.run (ExceptT.run x) s = r
  rcases r with ⟨_ | _, _⟩ <;> rfl

theorem exec_bind_ok {x : Eval α} {s t : Scope} {a : α} (h : exec x s = (.ok a, t))
    (f : α → Eval β) : exec (x >>= f) s = exec (f a) t := by
  rw [exec_bind, h]; rfl

/-- A sequence succeeds only if both of its parts do. -/
theorem exec_bind_eq_ok {x : Eval α} {f : α → Eval β} {s u : Scope} {b : β}
    (h : exec (x >>= f) s = (.ok b, u)) :
    ∃ a t, exec x s = (.ok a, t) ∧ exec (f a) t = (.ok b, u) := by
  rw [exec_bind] at h
  rcases hx : exec x s with ⟨_ | a, t⟩ <;> rw [hx] at h
  · simp [execThen] at h
  · exact ⟨a, t, rfl, h⟩

theorem exec_tryCatch (x : Eval α) (f : QueryError → Eval α) (s : Scope) :
    exec (tryCatch x f) s =
      match exec x s with
      | (.ok a, t) => (.ok a, t)
      | (.error e, t) => exec (f e) t := by
  simp only [exec, tryCatch, tryCatchThe, MonadExceptOf.tryCatch, ExceptT.tryCatch,
    ExceptT.run_mk, StateT.run_bind]
  rw [show StateT.run x s = StateT.run (ExceptT.run x) s from rfl]
  generalize StateT.run (ExceptT.run x) s = r
  rcases r with ⟨_ | _, _⟩ <;> rfl

/-- Computations that leave the scope alone give their results independently of each other. -/
theorem exec_mapM_of_stays {f : α → Eval β} {s : Scope} {as : List α}
    (h : ∀ a ∈ as, (exec (f a) s).2 = s) :
    exec (as.mapM f) s = (as.mapM fun a => (exec (f a) s).1, s) := by
  induction as with
  | nil => rfl
  | cons a as ih =>
    have first : exec (f a) s = ((exec (f a) s).1, s) := Prod.ext rfl (h a (by simp))
    rw [List.mapM_cons, List.mapM_cons, exec_bind, first]
    cases (exec (f a) s).1 with
    | error e => rfl
    | ok b =>
      rw [execThen, exec_bind, ih fun c hc => h c (by simp [hc])]
      cases as.mapM fun a => (exec (f a) s).1 <;> rfl

theorem exec_mapM_lift (f : α → Except QueryError β) (as : List α) (s : Scope) :
    exec (as.mapM fun a => (liftM (f a) : Eval β)) s = (as.mapM f, s) :=
  exec_mapM_of_stays fun _ _ => rfl

/-- Computations that succeed and leave the scope alone. -/
theorem exec_mapM_of_ok {f : α → Eval β} {g : α → β} {s : Scope} {as : List α}
    (h : ∀ a ∈ as, exec (f a) s = (.ok (g a), s)) :
    exec (as.mapM f) s = (.ok (as.map g), s) := by
  induction as with
  | nil => rfl
  | cons a as ih =>
    have rest := ih fun b hb => h b (by simp [hb])
    rw [List.mapM_cons, exec_bind_ok (h a (by simp)), exec_bind_ok rest]
    rfl

/-- A sequence succeeds with another one whose computations do, step by step. -/
theorem exec_mapM_of_each {γ : Type} {f : α → Eval β} {g : α → Eval γ} {k : α → β → γ}
    {as : List α}
    (h : ∀ a ∈ as, ∀ s b t, exec (f a) s = (.ok b, t) → exec (g a) s = (.ok (k a b), t))
    {s t : Scope} {bs : List β} (hf : exec (as.mapM f) s = (.ok bs, t)) :
    exec (as.mapM g) s = (.ok (as.zipWith k bs), t) := by
  induction as generalizing s bs with
  | nil =>
    cases hf
    rfl
  | cons a as ih =>
    rw [List.mapM_cons] at hf
    obtain ⟨b, u, hb, hf⟩ := exec_bind_eq_ok hf
    obtain ⟨cs, w, hcs, hf⟩ := exec_bind_eq_ok hf
    cases hf
    rw [List.mapM_cons, exec_bind_ok (h a (by simp) _ _ _ hb),
      exec_bind_ok (ih (fun c hc => h c (by simp [hc])) hcs)]
    rfl

/-- A sequence of computations that put their results together with what they are computed from. -/
theorem exec_mapM_beside {γ : Type} {f : α → Eval β} {g : α → Eval γ} {k : α → β → γ}
    {as : List α} {s t : Scope} {cs : List γ} (beside : ∀ a ∈ as, g a = do return k a (← f a))
    (h : exec (as.mapM g) s = (.ok cs, t)) :
    ∃ bs, exec (as.mapM f) s = (.ok bs, t) ∧ cs = as.zipWith k bs := by
  induction as generalizing s cs with
  | nil =>
    cases h
    exact ⟨[], rfl, rfl⟩
  | cons a as ih =>
    rw [List.mapM_cons, beside a (by simp)] at h
    obtain ⟨c, u, hc, h⟩ := exec_bind_eq_ok h
    obtain ⟨b, u', hb, hc⟩ := exec_bind_eq_ok hc
    cases hc
    obtain ⟨cs, w, hcs, h⟩ := exec_bind_eq_ok h
    cases h
    obtain ⟨bs, hbs, rfl⟩ := ih (fun a ha => beside a (by simp [ha])) hcs
    refine ⟨b :: bs, ?_, rfl⟩
    rw [List.mapM_cons, exec_bind_ok hb, exec_bind_ok hbs]
    rfl

/-- A sequence of computations gives one result for each. -/
theorem length_of_exec_mapM {f : α → Eval β} {as : List α} {s t : Scope} {bs : List β}
    (h : exec (as.mapM f) s = (.ok bs, t)) : bs.length = as.length := by
  induction as generalizing s bs with
  | nil =>
    cases h
    rfl
  | cons a as ih =>
    rw [List.mapM_cons] at h
    obtain ⟨b, u, -, h⟩ := exec_bind_eq_ok h
    obtain ⟨cs, w, hs, h⟩ := exec_bind_eq_ok h
    cases h
    rw [List.length_cons, List.length_cons, ih hs]

/-- Each computation of a sequence gives the result in its place. -/
theorem exists_of_exec_mapM {f : α → Eval β} {as : List α} {s t : Scope}
    {bs : List β} {k : Nat} {a : α} (h : exec (as.mapM f) s = (.ok bs, t)) (ha : as[k]? = some a) :
    ∃ b, bs[k]? = some b ∧ ∃ u w, exec (f a) u = (.ok b, w) := by
  induction as generalizing s bs k with
  | nil => cases ha
  | cons c as ih =>
    rw [List.mapM_cons] at h
    obtain ⟨b, u, hb, h⟩ := exec_bind_eq_ok h
    obtain ⟨bs, w, hbs, h⟩ := exec_bind_eq_ok h
    cases h
    cases k with
    | zero =>
      cases ha
      exact ⟨b, rfl, s, u, hb⟩
    | succ k =>
      simp only [List.getElem?_cons_succ] at ha ⊢
      exact ih hbs ha

/-- Every result of a sequence is the result of one of the computations, run in some scope. -/
theorem exists_of_mem_exec_mapM {f : α → Eval β} {as : List α} {s t : Scope} {bs : List β}
    (h : exec (as.mapM f) s = (.ok bs, t)) {b : β} (hb : b ∈ bs) :
    ∃ a ∈ as, ∃ u w, exec (f a) u = (.ok b, w) := by
  obtain ⟨k, hk, rfl⟩ := List.mem_iff_getElem.mp hb
  have inside : k < as.length := length_of_exec_mapM h ▸ hk
  obtain ⟨b, found, u, w, hx⟩ := exists_of_exec_mapM h (List.getElem?_eq_getElem inside)
  rw [List.getElem?_eq_getElem hk] at found
  cases found
  exact ⟨as[k], List.getElem_mem inside, u, w, hx⟩

/-- A computation whose result has something to show is one that succeeds. -/
theorem eq_ok_of_toOption_map {r : Except QueryError α × Scope} {f : α → β} {b : β}
    (h : r.1.toOption.map f = some b) : ∃ a t, r = (.ok a, t) ∧ f a = b := by
  rcases r with ⟨_ | a, t⟩
  · cases h
  · exact ⟨a, t, rfl, Option.some.inj h⟩

theorem exec_map (f : α → β) (x : Eval α) (s : Scope) :
    exec (f <$> x) s = (f <$> (exec x s).1, (exec x s).2) := by
  rw [map_eq_pure_bind, exec_bind]
  rcases exec x s with ⟨_ | _, _⟩ <;> rfl

end Eval

/-! ## Stages -/

namespace Stage

variable {α β : Type}

/-- The result of a stage, the view and the scope that it leaves. -/
def exec (x : Stage α) (v : View) (s : Scope) : (Except QueryError α × View) × Scope :=
  (x.run.run v).run s

@[simp] theorem exec_view (v : View) (s : Scope) : exec Stage.view v s = ((.ok v, v), s) := rfl

@[simp] theorem exec_modifyView (f : View → View) (v : View) (s : Scope) :
    exec (modifyView f) v s = ((.ok ⟨⟩, f v), s) := rfl

@[simp] theorem exec_lift (x : Except QueryError α) (v : View) (s : Scope) :
    exec (liftM x : Stage α) v s = ((x, v), s) := rfl

/-- An evaluation as a stage leaves the view alone. -/
theorem exec_liftEval (x : Eval α) (v : View) (s : Scope) :
    exec (liftM x : Stage α) v s = (((Eval.exec x s).1, v), (Eval.exec x s).2) :=
  rfl

/-- What follows a stage runs from its result, on the view and in the scope that it leaves. -/
def execThen (f : α → Stage β) :
    (Except QueryError α × View) × Scope → (Except QueryError β × View) × Scope
  | ((.ok a, v), s) => exec (f a) v s
  | ((.error e, v), s) => ((.error e, v), s)

theorem exec_bind (x : Stage α) (f : α → Stage β) (v : View) (s : Scope) :
    exec (x >>= f) v s = execThen f (exec x v s) := by
  simp only [exec, ExceptT.run_bind, StateT.run_bind]
  generalize StateT.run (StateT.run (ExceptT.run x) v) s = r
  rcases r with ⟨⟨_ | _, _⟩, _⟩ <;> rfl

theorem exec_bind_ok {x : Stage α} {v w : View} {s t : Scope} {a : α}
    (h : exec x v s = ((.ok a, w), t)) (f : α → Stage β) : exec (x >>= f) v s = exec (f a) w t := by
  rw [exec_bind, h]; rfl

theorem exec_tryCatch (x : Stage α) (f : QueryError → Stage α) (v : View) (s : Scope) :
    exec (tryCatch x f) v s =
      match exec x v s with
      | ((.ok a, w), t) => ((.ok a, w), t)
      | ((.error e, w), t) => exec (f e) w t := by
  simp only [exec, tryCatch, tryCatchThe, MonadExceptOf.tryCatch, ExceptT.tryCatch,
    ExceptT.run_mk, StateT.run_bind]
  rw [show StateT.run (StateT.run x v) s = StateT.run (StateT.run (ExceptT.run x) v) s from rfl]
  generalize StateT.run (StateT.run (ExceptT.run x) v) s = r
  rcases r with ⟨⟨_ | _, _⟩, _⟩ <;> rfl

/-- The view that a stage makes is the one that it leaves, if it succeeds. -/
theorem exec_runOn (x : Stage Unit) (v : View) (s : Scope) :
    Eval.exec (x.runOn v) s =
      match exec x v s with
      | ((.ok (), w), t) => (.ok w, t)
      | ((.error e, _), t) => (.error e, t) := by
  have h : Eval.exec (ExceptT.lift (x.run.run v)) s = (.ok (exec x v s).1, (exec x v s).2) := rfl
  rw [runOn, Eval.exec_bind_ok h]
  rcases exec x v s with ⟨⟨_ | _, _⟩, _⟩ <;> rfl

theorem exec_runOn_eq_ok {x : Stage Unit} {v w : View} {s t : Scope}
    (h : Eval.exec (x.runOn v) s = (.ok w, t)) : exec x v s = ((.ok (), w), t) := by
  rw [exec_runOn] at h
  rcases hx : exec x v s with ⟨⟨_ | _, u⟩, r⟩ <;> rw [hx] at h <;> cases h
  rfl

/-- A sequence of stages succeeds only if both of its parts do. -/
theorem exec_bind_eq_ok {x : Stage α} {f : α → Stage β} {v w : View} {s t : Scope} {b : β}
    (h : exec (x >>= f) v s = ((.ok b, w), t)) :
    ∃ a u r, exec x v s = ((.ok a, u), r) ∧ exec (f a) u r = ((.ok b, w), t) := by
  rw [exec_bind] at h
  rcases hx : exec x v s with ⟨⟨_ | a, u⟩, r⟩ <;> rw [hx] at h
  · cases h
  · exact ⟨a, u, r, rfl, h⟩

/-- A stage that begins with a computation succeeds only if the computation does. -/
theorem exec_bind_liftEval_eq_ok {x : Eval α} {f : α → Stage β} {v w : View}
    {s t : Scope} {b : β} (h : exec (liftM x >>= f) v s = ((.ok b, w), t)) :
    ∃ a u, Eval.exec x s = (.ok a, u) ∧ exec (f a) v u = ((.ok b, w), t) := by
  rw [exec_bind, exec_liftEval] at h
  rcases hx : Eval.exec x s with ⟨_ | a, u⟩ <;> rw [hx] at h
  · cases h
  · exact ⟨a, u, rfl, h⟩

end Stage

end TableQuery
