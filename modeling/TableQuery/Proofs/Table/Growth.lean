import Mathlib.Data.List.Forall2
import Mathlib.Logic.Relation
import TableQuery.Proofs.Table.Rectangular

/-!
# Growth of views

Fields and sort keys change a view in three ways only: they put its records in another order, they
add a computed column, and they add an alias to a column. What these changes keep holds after every
select list and every `ORDER BY` clause.
-/

namespace TableQuery

namespace View

/-- One change that fields and sort keys make to a view. -/
inductive Change : View → View → Prop
  | reorder {v : View} {rs : List Record} (perm : rs.Perm v.records) :
    Change v { v with records := rs }
  | push {v : View} {text : String} {values : List Value}
    (missing : v.header.findComputed? text = none) (length : values.length = v.records.length) :
    Change v (v.pushColumn (.computed text) values)
  | addAlias {v : View} (i : Nat) (name : String) :
    Change v { v with header := v.header.modify i fun c => c.addAlias name }

/-- Any number of changes. -/
def Grows : View → View → Prop :=
  Relation.ReflTransGen Change

theorem Grows.refl (v : View) : v.Grows v :=
  Relation.ReflTransGen.refl

theorem Grows.trans {u v w : View} (h : u.Grows v) (k : v.Grows w) : u.Grows w :=
  Relation.ReflTransGen.trans h k

theorem Change.grows {v w : View} (h : v.Change w) : v.Grows w :=
  Relation.ReflTransGen.single h

/-! ## What a change keeps -/

namespace Change

variable {v w : View}

theorem width_le (h : v.Change w) : v.header.width ≤ w.header.width := by
  cases h with
  | reorder => exact Nat.le_refl _
  | push => exact (Header.width_push ..).symm ▸ Nat.le_succ _
  | addAlias => exact Nat.le_of_eq (Header.width_modify ..).symm

theorem rectangular (h : v.Change w) (hv : v.Rectangular) : w.Rectangular := by
  cases h with
  | reorder perm => exact rectangular_of_subset hv perm.subset rfl rfl
  | push => exact pushColumn_rectangular hv _ _
  | addAlias => exact rectangular_of_subset hv (List.Subset.refl _) rfl (Header.width_modify ..)

theorem selected (h : v.Change w) : w.selected = v.selected := by
  cases h <;> rfl

theorem grouped (h : v.Change w) : w.grouped = v.grouped := by
  cases h <;> rfl

end Change

/-! ## What growth keeps -/

namespace Grows

variable {v w : View}

theorem width_le (h : v.Grows w) : v.header.width ≤ w.header.width := by
  induction h with
  | refl => exact Nat.le_refl _
  | tail _ change ih => exact Nat.le_trans ih change.width_le

theorem rectangular (h : v.Grows w) (hv : v.Rectangular) : w.Rectangular := by
  induction h with
  | refl => exact hv
  | tail _ change ih => exact change.rectangular ih

theorem selected (h : v.Grows w) : w.selected = v.selected := by
  induction h with
  | refl => rfl
  | tail _ change ih => rw [change.selected, ih]

theorem grouped (h : v.Grows w) : w.grouped = v.grouped := by
  induction h with
  | refl => rfl
  | tail _ change ih => rw [change.grouped, ih]

/-- A well-formed view grows into well-formed views. -/
theorem wellFormed (h : v.Grows w) (hv : v.WellFormed) : w.WellFormed where
  rectangular := h.rectangular hv.rectangular
  selected indices hi i him :=
    Nat.lt_of_lt_of_le (hv.selected indices (h.selected ▸ hi) i him) h.width_le

end Grows

end View

/-! ## Sorting -/

/-- Sorting changes the order only. -/
theorem stableSort_perm {α : Type} (less : α → α → Bool) (xs : List α) :
    (stableSort less xs).Perm xs := by
  induction xs using stableSort.induct with
  | case1 xs h half ihl ihr =>
    rw [stableSort, if_pos h]
    refine (List.merge_perm_append _).trans ?_
    exact (ihl.append ihr).trans (.of_eq (List.take_append_drop half xs))
  | case2 xs h => rw [stableSort, if_neg h]

section Related

variable {α β : Type} {R : α → β → Prop}

theorem merge_forall₂ {le : α → α → Bool} {le' : β → β → Bool}
    (hle : ∀ a b c d, R a c → R b d → le a b = le' c d) {as bs : List α} {cs ds : List β}
    (hl : List.Forall₂ R as cs) (hr : List.Forall₂ R bs ds) :
    List.Forall₂ R (as.merge bs le) (cs.merge ds le') := by
  induction hl generalizing bs ds with
  | nil => rwa [List.nil_merge, List.nil_merge]
  | @cons a c as cs hac hl ihl =>
    induction hr with
    | nil =>
      rw [List.merge_right, List.merge_right]
      exact .cons hac hl
    | @cons b d bs ds hbd hr ihr =>
      rw [List.cons_merge_cons, List.cons_merge_cons, hle a b c d hac hbd]
      split
      · exact .cons hac (ihl (.cons hbd hr))
      · exact .cons hbd ihr

/-- Lists whose elements are related, and compared alike, are sorted alike. -/
theorem stableSort_forall₂ {less : α → α → Bool} {less' : β → β → Bool}
    (hless : ∀ a b c d, R a c → R b d → less a b = less' c d) {xs : List α} {ys : List β}
    (h : List.Forall₂ R xs ys) : List.Forall₂ R (stableSort less xs) (stableSort less' ys) := by
  induction hn : xs.length using Nat.strongRecOn generalizing xs ys with
  | ind n ih =>
    have hlength := h.length_eq
    by_cases hlong : 2 ≤ xs.length
    · rw [stableSort, stableSort, if_pos hlong, if_pos (hlength ▸ hlong), ← hlength]
      have left := ih _ (by rw [List.length_take]; omega)
        (List.forall₂_take (xs.length / 2) h) rfl
      have right := ih _ (by rw [List.length_drop]; omega)
        (List.forall₂_drop (xs.length / 2) h) rfl
      refine merge_forall₂ (fun a b c d hac hbd => ?_) left right
      rw [hless b a d c hbd hac]
    · rw [stableSort, stableSort, if_neg hlong, if_neg (hlength ▸ hlong)]
      exact h

end Related

end TableQuery
