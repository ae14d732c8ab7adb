import Mathlib.Data.List.Chain
import TableQuery.Proofs.Table.Growth

/-!
# What a merge sort guarantees

A merge never puts an element directly behind one that it is less than, as long as no two elements
are less than each other. That is all that a sort by such a test guarantees: no element is less than
any before it only if "not less" carries over from neighbour to neighbour.
-/

namespace TableQuery

variable {α : Type} {less : α → α → Bool}

/-- `b` may stand behind `a`. -/
def InOrder (less : α → α → Bool) (a b : α) : Prop :=
  less b a = false

/-- No two elements are less than each other. -/
def Asymmetric (less : α → α → Bool) : Prop :=
  ∀ a b, less a b = true → less b a = false

/-- Among the elements of `s`, what may stand behind an element may stand behind all that it may
stand behind. -/
def TransitiveOn (less : α → α → Bool) (s : α → Prop) : Prop :=
  ∀ a b c, s a → s b → s c → InOrder less a b → InOrder less b c → InOrder less a c

/-! ## Neighbours -/

/-- A merge behind a common predecessor. -/
theorem merge_chain_cons (asymm : Asymmetric less) {p : α} {as bs : List α}
    (left : (p :: as).IsChain (InOrder less)) (right : (p :: bs).IsChain (InOrder less)) :
    (p :: as.merge bs fun a b => !less b a).IsChain (InOrder less) := by
  induction as generalizing p bs with
  | nil => rwa [List.nil_merge]
  | cons a as ihl =>
    induction bs generalizing p with
    | nil => rwa [List.merge_right]
    | cons b bs ihr =>
      rw [List.isChain_cons_cons] at left right
      rw [List.cons_merge_cons]
      cases hless : less b a with
      | false =>
        have behind : InOrder less a b := hless
        exact .cons_cons left.1 (ihl left.2 (.cons_cons behind right.2))
      | true =>
        have behind : InOrder less b a := asymm b a hless
        exact .cons_cons right.1 (ihr (.cons_cons behind left.2) right.2)

theorem merge_chain (asymm : Asymmetric less) {as bs : List α}
    (left : as.IsChain (InOrder less)) (right : bs.IsChain (InOrder less)) :
    (as.merge bs fun a b => !less b a).IsChain (InOrder less) := by
  cases as with
  | nil => rwa [List.nil_merge]
  | cons a as =>
    cases bs with
    | nil => rwa [List.merge_right]
    | cons b bs =>
      rw [List.cons_merge_cons]
      cases hless : less b a with
      | false =>
        have behind : InOrder less a b := hless
        exact merge_chain_cons asymm left (.cons_cons behind right)
      | true =>
        have behind : InOrder less b a := asymm b a hless
        exact merge_chain_cons asymm (.cons_cons behind left) right

/-- In a sorted list no element is less than the one directly before it. -/
theorem stableSort_chain (asymm : Asymmetric less) (xs : List α) :
    (stableSort less xs).IsChain (InOrder less) := by
  induction xs using stableSort.induct with
  | case1 xs h half ihl ihr =>
    rw [stableSort, if_pos h]
    exact merge_chain asymm ihl ihr
  | case2 xs h =>
    rw [stableSort, if_neg h]
    cases xs with
    | nil => exact .nil
    | cons x xs =>
      cases xs with
      | nil => exact .singleton x
      | cons _ _ => exact absurd (Nat.le_add_left ..) h

/-! ## Any two positions -/

theorem pairwise_of_chain {s : α → Prop} (trans : TransitiveOn less s) {xs : List α}
    (mem : ∀ x ∈ xs, s x) (chain : xs.IsChain (InOrder less)) : xs.Pairwise (InOrder less) := by
  let R (a b : α) : Prop := s a ∧ s b ∧ InOrder less a b
  have : Trans R R R :=
    ⟨fun ⟨ha, hb, hab⟩ ⟨_, hc, hbc⟩ => ⟨ha, hc, trans _ _ _ ha hb hc hab hbc⟩⟩
  have chain' : xs.IsChain R :=
    chain.imp_of_mem_imp fun a b ha hb hab => ⟨mem a ha, mem b hb, hab⟩
  exact chain'.pairwise.imp fun h => h.2.2

/-- In a sorted list no element is less than any before it, if the test is transitive on them. -/
theorem stableSort_pairwise (asymm : Asymmetric less) {s : α → Prop} (trans : TransitiveOn less s)
    {xs : List α} (mem : ∀ x ∈ xs, s x) : (stableSort less xs).Pairwise (InOrder less) :=
  pairwise_of_chain trans (fun x hx => mem x ((stableSort_perm less xs).mem_iff.mp hx))
    (stableSort_chain asymm xs)

/-- A list that is sorted stays as it is. -/
theorem stableSort_of_pairwise {xs : List α} (sorted : xs.Pairwise (InOrder less)) :
    stableSort less xs = xs := by
  induction xs using stableSort.induct with
  | case1 xs h half ihl ihr =>
    have halves : (xs.take half ++ xs.drop half).Pairwise (InOrder less) := by
      rwa [List.take_append_drop]
    rw [stableSort, if_pos h]
    show (stableSort less (xs.take half)).merge (stableSort less (xs.drop half)) _ = xs
    rw [ihl (sorted.sublist (List.take_sublist _ _)), ihr (sorted.sublist (List.drop_sublist _ _)),
      List.merge_of_le, List.take_append_drop]
    intro a b ha hb
    have behind : less b a = false := (List.pairwise_append.mp halves).2.2 a ha b hb
    rw [behind]
    rfl
  | case2 xs h => rw [stableSort, if_neg h]

theorem stableSort_singleton (less : α → α → Bool) (a : α) : stableSort less [a] = [a] := by
  rw [stableSort, if_neg (by simp)]

/-- Two elements change places if the second one is less. -/
theorem stableSort_swapped {a b : α} (h : less b a = true) : stableSort less [a, b] = [b, a] := by
  rw [stableSort, if_pos (by simp)]
  simp [stableSort_singleton, h]

/-- Three elements stay as they are if each may stand behind the one before it. -/
theorem stableSort_three {a b c : α} (hab : InOrder less a b) (hbc : InOrder less b c) :
    stableSort less [a, b, c] = [a, b, c] := by
  have pair : stableSort less [b, c] = [b, c] := by
    rw [stableSort, if_pos (by simp)]
    simp [stableSort_singleton, show less c b = false from hbc]
  rw [stableSort, if_pos (by simp)]
  simp [stableSort_singleton, pair, show less b a = false from hab]

/-- Transitivity is what it takes: without it there are three elements in an order that the sort
keeps although the last of them is less than the first. -/
theorem stableSort_pairwise_iff (asymm : Asymmetric less) (s : α → Prop) :
    (∀ xs : List α, (∀ x ∈ xs, s x) → (stableSort less xs).Pairwise (InOrder less)) ↔
      TransitiveOn less s := by
  constructor
  · intro sorts a b c ha hb hc hab hbc
    have pairwise := sorts [a, b, c] (by simp [ha, hb, hc])
    rw [stableSort_three hab hbc, List.pairwise_cons] at pairwise
    exact pairwise.1 c (by simp)
  · intro trans xs mem
    exact stableSort_pairwise asymm trans mem

end TableQuery
