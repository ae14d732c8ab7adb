import Mathlib.Data.List.Forall2
import TableQuery.Evaluation.Join

/-!
# Sequences of results

A sequence of results succeeds only if all of them do.
-/

namespace TableQuery

variable {α β γ : Type}

theorem mapM_eq_ok_iff {f : α → Except QueryError β} {as : List α} {bs : List β} :
    as.mapM f = .ok bs ↔ List.Forall₂ (fun a b => f a = .ok b) as bs := by
  induction as generalizing bs with
  | nil =>
    constructor
    · intro h
      cases h
      exact .nil
    · intro h
      cases h
      rfl
  | cons a as ih =>
    rw [List.mapM_cons]
    constructor
    · intro h
      cases ha : f a with
      | error e => rw [ha] at h; cases h
      | ok b =>
        rw [ha] at h
        cases hs : as.mapM f with
        | error e => rw [hs] at h; cases h
        | ok cs =>
          rw [hs] at h
          cases h
          exact .cons ha (ih.mp hs)
    · intro h
      cases h with
      | cons ha hs => rw [ha, ih.mpr hs]; rfl

/-- Every result is the result of one of the elements. -/
theorem exists_of_mem_mapM {f : α → Except QueryError β} {as : List α} {bs : List β}
    (h : as.mapM f = .ok bs) {b : β} (hb : b ∈ bs) : ∃ a ∈ as, f a = .ok b := by
  have hall := mapM_eq_ok_iff.mp h
  clear h
  induction hall with
  | nil => cases hb
  | @cons a c as cs hac _ ih =>
    cases hb with
    | head => exact ⟨a, by simp, hac⟩
    | tail _ hb =>
      obtain ⟨x, hx, hxb⟩ := ih hb
      exact ⟨x, by simp [hx], hxb⟩

theorem mapM_error_of_mem {f : α → Except QueryError β} {as : List α} {a : α} {e : QueryError}
    (hm : a ∈ as) (ha : f a = .error e) : ∃ e, as.mapM f = .error e := by
  induction as with
  | nil => cases hm
  | cons c as ih =>
    rw [List.mapM_cons]
    cases hc : f c with
    | error e => exact ⟨e, rfl⟩
    | ok b =>
      cases hm with
      | head => rw [ha] at hc; cases hc
      | tail _ hm =>
        obtain ⟨e, he⟩ := ih hm
        exact ⟨e, by rw [he]; rfl⟩

/-- The results of several lists, one after the other. -/
theorem mapM_flatten {m : Type → Type} [Monad m] [LawfulMonad m] (f : α → m β)
    (parts : List (List α)) :
    parts.flatten.mapM f = List.flatten <$> parts.mapM fun part => part.mapM f := by
  induction parts with
  | nil => simp
  | cons part parts ih => simp [ih]

theorem mapM_map_result {m : Type → Type} [Monad m] [LawfulMonad m] (f : α → m β) (g : β → γ)
    (as : List α) : (as.mapM fun a => g <$> f a) = List.map g <$> as.mapM f := by
  induction as with
  | nil => simp
  | cons a as ih => simp [ih]

end TableQuery
