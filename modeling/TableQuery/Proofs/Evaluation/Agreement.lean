import Mathlib.Data.List.Forall2
import TableQuery.Proofs.Evaluation.Run

/-!
# Agreement of computations

Two computations agree on a set of scopes if from each of them they give the same and stay in the
set. A computation that agrees with itself is one that keeps the set, so the rules below serve both
for frame properties (what an evaluation leaves alone) and for the exchange of environments.
-/

namespace TableQuery

variable {α β γ : Type} {I : Scope → Prop}

/-! ## Evaluations -/

namespace Eval

/-- `x` and `y` give the same from every scope in `I`, and leave a scope in `I`. -/
def Same (I : Scope → Prop) (x y : Eval α) : Prop :=
  ∀ s, I s → exec x s = exec y s ∧ I (exec x s).2

theorem Same.pure (a : α) : Same I (pure a) (pure a) :=
  fun _ hs => ⟨rfl, hs⟩

theorem Same.throw (e : QueryError) : Same I (throw e : Eval α) (throw e) :=
  fun _ hs => ⟨rfl, hs⟩

theorem Same.lift (x : Except QueryError α) : Same I (liftM x : Eval α) (liftM x) :=
  fun _ hs => ⟨rfl, hs⟩

theorem Same.get : Same I (get : Eval Scope) MonadState.get :=
  fun _ hs => ⟨rfl, hs⟩

theorem Same.bind {x y : Eval α} {f g : α → Eval β} (h : Same I x y)
    (hf : ∀ a, Same I (f a) (g a)) : Same I (x >>= f) (y >>= g) := by
  intro s hs
  obtain ⟨he, hi⟩ := h s hs
  rw [exec_bind, exec_bind, ← he]
  generalize exec x s = r at hi ⊢
  rcases r with ⟨_ | a, t⟩
  · exact ⟨rfl, hi⟩
  · exact hf a t hi

/-- What follows need agree only on the results that can be given. -/
theorem Same.bind_of {x y : Eval α} {f g : α → Eval β} (h : Same I x y)
    (hf : ∀ a s t, exec x s = (.ok a, t) → Same I (f a) (g a)) : Same I (x >>= f) (y >>= g) := by
  intro s hs
  obtain ⟨he, hi⟩ := h s hs
  rw [exec_bind, exec_bind, ← he]
  rcases hx : exec x s with ⟨_ | a, t⟩ <;> rw [hx] at hi
  · exact ⟨rfl, hi⟩
  · exact hf a s t hx t hi

/-- What follows a plain result need agree only on the value that it gives. -/
theorem Same.lift_bind {x : Except QueryError α} {f g : α → Eval β}
    (hf : ∀ a, x = .ok a → Same I (f a) (g a)) :
    Same I ((liftM x : Eval α) >>= f) ((liftM x : Eval α) >>= g) := by
  cases x with
  | error e => exact fun _ hs => ⟨rfl, hs⟩
  | ok a => exact hf a rfl

theorem Same.map {x y : Eval α} (f : α → β) (h : Same I x y) : Same I (f <$> x) (f <$> y) := by
  rw [map_eq_pure_bind, map_eq_pure_bind]
  exact h.bind fun a => .pure (f a)

theorem Same.tryCatch {x y : Eval α} {f g : QueryError → Eval α} (h : Same I x y)
    (hf : ∀ e, Same I (f e) (g e)) : Same I (tryCatch x f) (MonadExcept.tryCatch y g) := by
  intro s hs
  obtain ⟨he, hi⟩ := h s hs
  rw [exec_tryCatch, exec_tryCatch, ← he]
  generalize exec x s = r at hi ⊢
  rcases r with ⟨e | _, t⟩
  · exact hf e t hi
  · exact ⟨rfl, hi⟩

theorem Same.mapM {f g : α → Eval β} {as : List α} (h : ∀ a ∈ as, Same I (f a) (g a)) :
    Same I (as.mapM f) (as.mapM g) := by
  induction as with
  | nil => exact .pure []
  | cons a as ih =>
    rw [List.mapM_cons, List.mapM_cons]
    refine (h a (by simp)).bind fun b => ?_
    exact (ih fun c hc => h c (by simp [hc])).bind fun bs => .pure (b :: bs)

/-- The two sequences may run over different lists, as long as they agree element by element. -/
theorem Same.mapM_related {f : α → Eval γ} {g : β → Eval γ} {as : List α} {bs : List β}
    (h : List.Forall₂ (fun a b => Same I (f a) (g b)) as bs) :
    Same I (as.mapM f) (bs.mapM g) := by
  induction h with
  | nil => exact .pure []
  | cons hab _ ih =>
    rw [List.mapM_cons, List.mapM_cons]
    exact hab.bind fun c => ih.bind fun cs => .pure (c :: cs)

theorem Same.foldlM {f g : β → α → Eval β} {as : List α}
    (h : ∀ a ∈ as, ∀ b, Same I (f b a) (g b a)) (b : β) :
    Same I (as.foldlM f b) (as.foldlM g b) := by
  induction as generalizing b with
  | nil => exact .pure b
  | cons a as ih =>
    rw [List.foldlM_cons, List.foldlM_cons]
    exact (h a (by simp) b).bind fun c => ih (fun d hd => h d (by simp [hd])) c

theorem Same.foldl {f g : Eval β → α → Eval β} {as : List α}
    (h : ∀ a ∈ as, ∀ x y, Same I x y → Same I (f x a) (g y a)) {x y : Eval β} (hxy : Same I x y) :
    Same I (as.foldl f x) (as.foldl g y) := by
  induction as generalizing x y with
  | nil => exact hxy
  | cons a as ih => exact ih (fun b hb => h b (by simp [hb])) (h a (by simp) x y hxy)

/-- What agrees with itself keeps the set. -/
theorem Same.keeps {x y : Eval α} (h : Same I x y) {s : Scope} (hs : I s) : I (exec x s).2 :=
  (h s hs).2

theorem Same.exec_eq {x y : Eval α} (h : Same I x y) {s : Scope} (hs : I s) :
    exec x s = exec y s :=
  (h s hs).1

end Eval

/-! ## Stages -/

namespace Stage

/-- `x` and `y` do the same to every view from every scope in `I`, and leave a scope in `I`. -/
def Same (I : Scope → Prop) (x y : Stage α) : Prop :=
  ∀ v s, I s → exec x v s = exec y v s ∧ I (exec x v s).2

theorem Same.pure (a : α) : Same I (pure a) (pure a) :=
  fun _ _ hs => ⟨rfl, hs⟩

theorem Same.throw (e : QueryError) : Same I (throw e : Stage α) (throw e) :=
  fun _ _ hs => ⟨rfl, hs⟩

theorem Same.lift (x : Except QueryError α) : Same I (liftM x : Stage α) (liftM x) :=
  fun _ _ hs => ⟨rfl, hs⟩

theorem Same.view : Same I Stage.view Stage.view :=
  fun _ _ hs => ⟨rfl, hs⟩

theorem Same.modifyView (f : View → View) : Same I (modifyView f) (modifyView f) :=
  fun _ _ hs => ⟨rfl, hs⟩

theorem Same.liftEval {x y : Eval α} (h : Eval.Same I x y) :
    Same I (liftM x : Stage α) (liftM y) := by
  intro v s hs
  obtain ⟨he, hi⟩ := h s hs
  rw [exec_liftEval, exec_liftEval, he]
  exact ⟨rfl, he ▸ hi⟩

theorem Same.bind {x y : Stage α} {f g : α → Stage β} (h : Same I x y)
    (hf : ∀ a, Same I (f a) (g a)) : Same I (x >>= f) (y >>= g) := by
  intro v s hs
  obtain ⟨he, hi⟩ := h v s hs
  rw [exec_bind, exec_bind, ← he]
  generalize exec x v s = r at hi ⊢
  rcases r with ⟨⟨_ | a, w⟩, t⟩
  · exact ⟨rfl, hi⟩
  · exact hf a w t hi

theorem Same.tryCatch {x y : Stage α} {f g : QueryError → Stage α} (h : Same I x y)
    (hf : ∀ e, Same I (f e) (g e)) : Same I (tryCatch x f) (MonadExcept.tryCatch y g) := by
  intro v s hs
  obtain ⟨he, hi⟩ := h v s hs
  rw [exec_tryCatch, exec_tryCatch, ← he]
  generalize exec x v s = r at hi ⊢
  rcases r with ⟨⟨e | _, w⟩, t⟩
  · exact hf e w t hi
  · exact ⟨rfl, hi⟩

theorem Same.mapM {f g : α → Stage β} {as : List α} (h : ∀ a ∈ as, Same I (f a) (g a)) :
    Same I (as.mapM f) (as.mapM g) := by
  induction as with
  | nil => exact .pure []
  | cons a as ih =>
    rw [List.mapM_cons, List.mapM_cons]
    refine (h a (by simp)).bind fun b => ?_
    exact (ih fun c hc => h c (by simp [hc])).bind fun bs => .pure (b :: bs)

theorem Same.forM {f g : α → Stage PUnit} {as : List α} (h : ∀ a ∈ as, Same I (f a) (g a)) :
    Same I (as.forM f) (as.forM g) := by
  induction as with
  | nil => exact .pure PUnit.unit
  | cons a as ih =>
    exact (h a (by simp)).bind fun _ => ih fun c hc => h c (by simp [hc])

theorem Same.runOn {x y : Stage Unit} (h : Same I x y) (v : View) :
    Eval.Same I (x.runOn v) (y.runOn v) := by
  intro s hs
  obtain ⟨he, hi⟩ := h v s hs
  rw [exec_runOn, exec_runOn, ← he]
  generalize exec x v s = r at hi ⊢
  rcases r with ⟨⟨_ | _, _⟩, _⟩ <;> exact ⟨rfl, hi⟩

end Stage

end TableQuery
