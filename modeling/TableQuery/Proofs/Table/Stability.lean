import Mathlib
import TableQuery.Proofs.Table.Sorting

/-!
# Sorting is stable

Halving a list ends after as many levels as its length needs, whatever the test is. If the test is a
strict weak order on the elements of the list, no element of the sorted list is less than one before
it, and elements that the test does not tell apart stay in the order in which they stood.
-/

namespace TableQuery

variable {α β : Type} {less : α → α → Bool}

/-! ## Levels of halving -/

/-- A run of the sort that puts `xs` into the order `ys` by at most `depth` levels of halves. -/
inductive SortsWithin (less : α → α → Bool) : ℕ → List α → List α → Prop
  | short {depth : ℕ} {xs : List α} (short : xs.length ≤ 1) : SortsWithin less depth xs xs
  | halves {depth : ℕ} {xs ls rs : List α} (long : 2 ≤ xs.length)
    (left : SortsWithin less depth (xs.take (xs.length / 2)) ls)
    (right : SortsWithin less depth (xs.drop (xs.length / 2)) rs) :
    SortsWithin less (depth + 1) xs (ls.merge rs fun a b => !less b a)

theorem stableSort_of_short {xs : List α} (short : xs.length ≤ 1) : stableSort less xs = xs := by
  rw [stableSort, if_neg (by omega)]

theorem stableSort_of_long {xs : List α} (long : 2 ≤ xs.length) : stableSort less xs =
    (stableSort less (xs.take (xs.length / 2))).merge (stableSort less (xs.drop (xs.length / 2)))
      (fun a b => !less b a) := by
  rw [stableSort, if_pos long]

theorem SortsWithin.eq_stableSort {depth : ℕ} {xs ys : List α} (run : SortsWithin less depth xs ys) :
    ys = stableSort less xs := by
  induction run with
  | short short => exact (stableSort_of_short short).symm
  | halves long _ _ left right => rw [stableSort_of_long long, left, right]

/-- Each level halves the length. -/
theorem sortsWithin_of_length {depth : ℕ} {xs : List α} (h : xs.length ≤ 2 ^ depth) :
    SortsWithin less depth xs (stableSort less xs) := by
  induction depth generalizing xs with
  | zero =>
    rw [stableSort_of_short h]
    exact .short h
  | succ depth ih =>
    rcases Nat.lt_or_ge xs.length 2 with short | long
    · rw [stableSort_of_short (by omega)]
      exact .short (by omega)
    · rw [Nat.pow_succ] at h
      rw [stableSort_of_long long]
      refine .halves long (ih ?_) (ih ?_)
      · rw [List.length_take]
        omega
      · rw [List.length_drop]
        omega

/-- A list has one run, and its end is the sorted list. -/
theorem sortsWithin_iff {xs ys : List α} :
    (∃ depth, SortsWithin less depth xs ys) ↔ ys = stableSort less xs := by
  constructor
  · rintro ⟨depth, run⟩
    exact run.eq_stableSort
  · rintro rfl
    exact ⟨_, sortsWithin_of_length (Nat.le_pow_clog Nat.one_lt_two _)⟩

/-! ## Strict weak orders -/

/-- The test does not tell the two apart. -/
def Tied (less : α → α → Bool) (a b : α) : Prop :=
  less a b = false ∧ less b a = false

/-- The test is a strict weak order on the elements of `s`. -/
structure StrictWeakOn (less : α → α → Bool) (s : α → Prop) : Prop where
  irrefl : ∀ a, s a → less a a = false
  trans : ∀ a b c, s a → s b → s c → less a b = true → less b c = true → less a c = true
  tied_trans : ∀ a b c, s a → s b → s c → Tied less a b → Tied less b c → Tied less a c

namespace StrictWeakOn

variable {s : α → Prop} {a b c : α}

theorem inOrder_of_less (weak : StrictWeakOn less s) (ha : s a) (hb : s b) (h : less a b = true) :
    InOrder less a b := by
  rw [InOrder, ← Bool.not_eq_true]
  intro back
  have self := weak.trans a b a ha hb ha h back
  rw [weak.irrefl a ha] at self
  cases self

/-- What may stand behind an element may stand behind all that it may stand behind. -/
theorem transitiveOn (weak : StrictWeakOn less s) : TransitiveOn less s := by
  intro a b c ha hb hc hab hbc
  rw [InOrder, ← Bool.not_eq_true]
  intro hca
  -- an element that is less than its neighbour would carry `c` in front of the other one
  have notLess : less a b = false := by
    rw [← Bool.not_eq_true]
    intro h
    exact absurd (weak.trans c a b hc ha hb hca h) (Bool.eq_false_iff.1 hbc)
  have notLess' : less b c = false := by
    rw [← Bool.not_eq_true]
    intro h
    exact absurd (weak.trans b c a hb hc ha h hca) (Bool.eq_false_iff.1 hab)
  have tied := weak.tied_trans a b c ha hb hc ⟨notLess, hab⟩ ⟨notLess', hbc⟩
  rw [tied.2] at hca
  cases hca

/-- An element that is less than another one is less than all that may stand behind that one. -/
theorem less_of_inOrder (weak : StrictWeakOn less s) (ha : s a) (hb : s b) (hc : s c)
    (hab : less a b = true) (hbc : InOrder less b c) : less a c = true := by
  rw [← Bool.not_eq_false]
  intro hca
  have behind : InOrder less b a := weak.transitiveOn b c a hb hc ha hbc hca
  rw [InOrder, hab] at behind
  cases behind

end StrictWeakOn

/-! ## The order in which elements stood -/

/-- `a` stands in front of `b` because it is less, or because it did and `b` is not less. -/
def Arranged (less : α → α → Bool) (stood : α → α → Prop) (a b : α) : Prop :=
  less a b = true ∨ InOrder less a b ∧ stood a b

variable {s : α → Prop} {stood : α → α → Prop}

theorem Arranged.inOrder (weak : StrictWeakOn less s) {a b : α} (ha : s a) (hb : s b)
    (h : Arranged less stood a b) : InOrder less a b :=
  h.elim (weak.inOrder_of_less ha hb) And.left

/-- A merge arranges the elements of two lists of which one stood in front of the other. -/
theorem merge_arranged (weak : StrictWeakOn less s) {as bs : List α} (memLeft : ∀ a ∈ as, s a)
    (memRight : ∀ b ∈ bs, s b) (left : as.Pairwise (Arranged less stood))
    (right : bs.Pairwise (Arranged less stood)) (across : ∀ a ∈ as, ∀ b ∈ bs, stood a b) :
    (as.merge bs fun a b => !less b a).Pairwise (Arranged less stood) := by
  induction as generalizing bs with
  | nil => rwa [List.nil_merge]
  | cons a as ihl =>
    induction bs with
    | nil => rwa [List.merge_right]
    | cons b bs ihr =>
      rw [List.forall_mem_cons] at memLeft memRight
      obtain ⟨ha, mem⟩ := memLeft
      obtain ⟨hb, mem'⟩ := memRight
      obtain ⟨first, rest⟩ := List.pairwise_cons.1 left
      obtain ⟨first', rest'⟩ := List.pairwise_cons.1 right
      rw [List.cons_merge_cons]
      cases hless : less b a with
      | false =>
        refine List.pairwise_cons.2 ⟨fun x hx => ?_, ihl mem (List.forall_mem_cons.2 ⟨hb, mem'⟩) rest
          right fun y hy => across y (List.mem_cons_of_mem a hy)⟩
        rcases List.mem_merge.1 hx with hx | hx
        · exact first x hx
        · -- `x` is `b` or behind it, so it is not less than `a` and it stood behind `a`
          refine .inr ⟨?_, across a List.mem_cons_self x hx⟩
          rcases List.mem_cons.1 hx with rfl | hx
          · exact hless
          · exact weak.transitiveOn a b x ha hb (mem' x hx) hless
              ((first' x hx).inOrder weak hb (mem' x hx))
      | true =>
        refine List.pairwise_cons.2 ⟨fun x hx => ?_, ihr mem' rest' fun y hy z hz =>
          across y hy z (List.mem_cons_of_mem b hz)⟩
        rcases List.mem_merge.1 hx with hx | hx
        · left
          rcases List.mem_cons.1 hx with rfl | hx
          · exact hless
          · exact weak.less_of_inOrder hb ha (mem x hx) hless
              ((first x hx).inOrder weak ha (mem x hx))
        · exact first' x hx

/-- Sorting arranges the elements of a list. -/
theorem stableSort_arranged (weak : StrictWeakOn less s) {xs : List α} (mem : ∀ x ∈ xs, s x)
    (h : xs.Pairwise stood) : (stableSort less xs).Pairwise (Arranged less stood) := by
  induction xs using stableSort.induct with
  | case1 xs long half ihl ihr =>
    have halves : (xs.take half ++ xs.drop half).Pairwise stood := by
      rwa [List.take_append_drop]
    obtain ⟨left, right, across⟩ := List.pairwise_append.1 halves
    have memLeft (x : α) (hx : x ∈ stableSort less (xs.take half)) : x ∈ xs.take half :=
      (stableSort_perm less _).mem_iff.1 hx
    have memRight (x : α) (hx : x ∈ stableSort less (xs.drop half)) : x ∈ xs.drop half :=
      (stableSort_perm less _).mem_iff.1 hx
    rw [stableSort_of_long long]
    refine merge_arranged weak (fun x hx => mem x (List.mem_of_mem_take (memLeft x hx)))
      (fun x hx => mem x (List.mem_of_mem_drop (memRight x hx)))
      (ihl (fun x hx => mem x (List.mem_of_mem_take hx)) left)
      (ihr (fun x hx => mem x (List.mem_of_mem_drop hx)) right)
      fun a ha b hb => across a (memLeft a ha) b (memRight b hb)
  | case2 xs short =>
    rw [stableSort_of_short (by omega)]
    rcases xs with _ | ⟨x, _ | ⟨y, rest⟩⟩
    · exact .nil
    · exact List.pairwise_singleton _ x
    · exact absurd (Nat.le_add_left ..) short

/-! ## Positions -/

/-- Elements that carry something are sorted as without it. -/
theorem map_stableSort (f : β → α) (ps : List β) :
    (stableSort (fun p q => less (f p) (f q)) ps).map f = stableSort less (ps.map f) := by
  induction ps using stableSort.induct with
  | case1 ps long half ihl ihr =>
    have long' : 2 ≤ (ps.map f).length := by rwa [List.length_map]
    rw [stableSort_of_long long, stableSort_of_long long', List.length_map, ← List.map_take,
      ← List.map_drop, ← ihl, ← ihr]
    exact List.map_merge fun _ _ _ _ => rfl
  | case2 ps short =>
    rw [stableSort_of_short (by omega), stableSort_of_short (by rw [List.length_map]; omega)]

theorem pairwise_zipIdx (xs : List α) (n : ℕ) :
    (xs.zipIdx n).Pairwise fun p q => p.2 < q.2 := by
  rw [← List.pairwise_map (f := Prod.snd), List.zipIdx_map_snd]
  exact List.pairwise_lt_range'

/-- On every test the sort ends, after as many levels of halves as the length needs, with a
permutation of the list. If the test is a strict weak order on the elements, none of them is less
than one before it, and those that the test does not tell apart keep the order of their positions:
the sorted list is shown with the position at which each element stood. -/
theorem stableSort_stable (less : α → α → Bool) (xs : List α) :
    (∀ ys, (∃ depth, SortsWithin less depth xs ys) ↔ ys = stableSort less xs) ∧
      SortsWithin less (Nat.clog 2 xs.length) xs (stableSort less xs) ∧
      (stableSort less xs).Perm xs ∧
      (StrictWeakOn less (· ∈ xs) → (stableSort less xs).Pairwise (InOrder less) ∧
        ∃ ps : List (α × ℕ), ps.Perm xs.zipIdx ∧ ps.map Prod.fst = stableSort less xs ∧
          ps.Pairwise fun p q => Tied less p.1 q.1 → p.2 < q.2) := by
  refine ⟨fun ys => sortsWithin_iff, sortsWithin_of_length (Nat.le_pow_clog Nat.one_lt_two _),
    stableSort_perm less xs, fun weak => ?_⟩
  have placed : StrictWeakOn (fun p q : α × ℕ => less p.1 q.1) fun p => p.1 ∈ xs :=
    ⟨fun p => weak.irrefl p.1, fun p q r => weak.trans p.1 q.1 r.1,
      fun p q r => weak.tied_trans p.1 q.1 r.1⟩
  have elements : xs.zipIdx.map Prod.fst = xs := List.zipIdx_map_fst 0 xs
  have inside : ∀ p ∈ xs.zipIdx, p.1 ∈ xs := fun p hp => elements ▸ List.mem_map_of_mem hp
  have arranged := stableSort_arranged placed inside (pairwise_zipIdx xs 0)
  have perm := stableSort_perm (fun p q : α × ℕ => less p.1 q.1) xs.zipIdx
  have sorted : (stableSort (fun p q : α × ℕ => less p.1 q.1) xs.zipIdx).map Prod.fst =
      stableSort less xs := by
    rw [map_stableSort, elements]
  constructor
  · rw [← sorted, List.pairwise_map]
    refine arranged.imp_of_mem fun {p q} hp hq h => h.inOrder placed ?_ ?_
    · exact inside p (perm.mem_iff.1 hp)
    · exact inside q (perm.mem_iff.1 hq)
  · refine ⟨_, perm, sorted, arranged.imp fun {p q} h tied => ?_⟩
    exact h.elim (fun before => absurd before (Bool.eq_false_iff.1 tied.1)) And.right

/-- Rows with equal keys stay in their order. -/
theorem stableSort_stable_rows :
    let less := fun p q : ℕ × Char => Nat.blt p.1 q.1
    let xs := [(1, 'x'), (0, 'y'), (1, 'z'), (0, 'w')]
    StrictWeakOn less (· ∈ xs) ∧ (stableSort less xs).Pairwise (InOrder less) ∧
      ∃ ps : List ((ℕ × Char) × ℕ), ps.Perm xs.zipIdx ∧ ps.map Prod.fst = stableSort less xs ∧
        ps.Pairwise fun p q => Tied less p.1 q.1 → p.2 < q.2 := by
  intro less xs
  have weak : StrictWeakOn less (· ∈ xs) := by
    refine ⟨?_, ?_, ?_⟩
    all_goals
      simp only [less, Tied, Nat.blt_eq, ← Bool.not_eq_true]
      omega
  exact ⟨weak, (stableSort_stable less xs).2.2.2 weak⟩

end TableQuery
