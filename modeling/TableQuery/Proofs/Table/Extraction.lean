import TableQuery.Table.Arrangement

/-!
# Extraction takes what it is asked for

Taking out an element moves the last one, so most positions of what is left hold other elements. But
the positions in front of the one that was taken are still those of the start, and ascending indices
are taken from the last one on: the next index is always in front.
-/

namespace TableQuery

variable {α : Type} {xs : Array α} {i : Nat} {indices : List Nat} {flags : List Bool}

/-- The elements in front of the one that is taken stay where they are. -/
theorem swapRemove?_of_lt (h : i < xs.size) : ∃ left, swapRemove? xs i = some (xs[i], left) ∧
    left.size + 1 = xs.size ∧ ∀ j < i, left[j]? = xs[j]? := by
  refine ⟨_, dif_pos h, ?_, fun j hj => ?_⟩
  · rw [Array.size_pop, Array.size_swap]
    omega
  · rw [Array.getElem?_pop, Array.size_swap, if_pos (by omega),
      Array.getElem?_swap, if_neg (by omega), if_neg (by omega)]

/-- Of several indices the last one is taken first. -/
theorem takeOut?_cons {taken : List α} {left rest : Array α} {x : α}
    (later : takeOut? xs indices = some (taken, left)) (first : swapRemove? left i = some (x, rest)) :
    takeOut? xs (i :: indices) = some (x :: taken, rest) := by
  rw [takeOut?, later]
  show (swapRemove? left i >>= _) = _
  rw [first]
  rfl

/-- Ascending indices are never out of range, and give the elements that are there at the start. -/
theorem takeOut?_ascending (xs : Array α) (ascending : indices.Pairwise (· < ·))
    (inside : ∀ i ∈ indices, i < xs.size) :
    ∃ taken left, takeOut? xs indices = some (taken, left) ∧
      taken.map some = indices.map (fun i => xs[i]?) ∧
      left.size + indices.length = xs.size ∧
      ∀ j, (∀ i ∈ indices, j < i) → left[j]? = xs[j]? := by
  induction indices with
  | nil => exact ⟨[], xs, rfl, rfl, rfl, fun _ _ => rfl⟩
  | cons i indices ih =>
    obtain ⟨first, ascending⟩ := List.pairwise_cons.mp ascending
    obtain ⟨hi, inside⟩ := List.forall_mem_cons.mp inside
    obtain ⟨taken, left, run, found, size, front⟩ := ih ascending inside
    -- the index is in front of those taken before, so its element is still there
    have here : left[i]? = some xs[i] := (front i first).trans (Array.getElem?_eq_getElem hi)
    obtain ⟨hl, same⟩ := Array.getElem?_eq_some_iff.mp here
    obtain ⟨rest, removed, less, kept⟩ := swapRemove?_of_lt hl
    refine ⟨xs[i] :: taken, rest, takeOut?_cons run (same ▸ removed), ?_, ?_, fun j hj => ?_⟩
    · rw [List.map_cons, List.map_cons, found, Array.getElem?_eq_getElem hi]
    · rw [List.length_cons]
      omega
    · obtain ⟨before, others⟩ := List.forall_mem_cons.mp hj
      rw [kept j before, front j others]

/-! ## Flags -/

theorem flaggedIndices_sublist (flags : List Bool) :
    (flaggedIndices flags).Sublist (List.range' 0 flags.length) := by
  have kept := (List.filter_sublist (p := Prod.fst) (l := flags.zipIdx)).map Prod.snd
  rwa [List.zipIdx_map_snd] at kept

theorem flaggedIndices_ascending (flags : List Bool) :
    (flaggedIndices flags).Pairwise (· < ·) :=
  (List.pairwise_lt_range' ..).sublist (flaggedIndices_sublist flags)

theorem lt_of_mem_flaggedIndices (h : i ∈ flaggedIndices flags) : i < flags.length := by
  have mem := (flaggedIndices_sublist flags).subset h
  rw [List.mem_range'_1] at mem
  omega

/-- The elements at the indices of flags that are set are the elements beside these flags. -/
theorem map_flaggedIndices {xs : List α} (length : flags.length = xs.length) :
    (flaggedIndices flags).map (fun i => xs[i]?) =
      (((xs.zip flags).filter Prod.snd).map Prod.fst).map some := by
  have shifted : ∀ (ys : List α) (k : Nat) (xs : List α) (flags : List Bool),
      flags.length = xs.length → (∀ j, ys[k + j]? = xs[j]?) →
      (((flags.zipIdx k).filter Prod.fst).map Prod.snd).map (fun i => ys[i]?) =
        (((xs.zip flags).filter Prod.snd).map Prod.fst).map some := by
    intro ys k xs flags
    induction flags generalizing k xs with
    | nil =>
      intro _ _
      rw [List.zip_nil_right]
      rfl
    | cons flag flags ih =>
      intro length at_
      cases xs with
      | nil => cases length
      | cons x xs =>
        have rest := ih (k + 1) xs (Nat.succ.inj length) fun j => by
          rw [Nat.add_assoc, Nat.add_comm 1 j, at_, List.getElem?_cons_succ]
        have here : ys[k]? = some x := (at_ 0).trans rfl
        rw [List.zipIdx_cons, List.zip_cons_cons, List.filter_cons, List.filter_cons]
        cases flag with
        | false => exact rest
        | true =>
          rw [if_pos rfl, if_pos rfl, List.map_cons, List.map_cons, List.map_cons, List.map_cons,
            rest, here]
  exact shifted xs 0 xs flags length fun j => by rw [Nat.zero_add]

/-- Extraction at the indices of flags keeps the elements beside the flags that are set. -/
theorem takeOut?_flaggedIndices {xs : List α} (length : flags.length = xs.length) :
    (takeOut? xs.toArray (flaggedIndices flags)).map Prod.fst =
      some (((xs.zip flags).filter Prod.snd).map Prod.fst) := by
  obtain ⟨taken, left, run, found, -, -⟩ := takeOut?_ascending xs.toArray
    (flaggedIndices_ascending flags) fun i hi => by
      rw [List.size_toArray, ← length]
      exact lt_of_mem_flaggedIndices hi
  have same : taken.map some = (((xs.zip flags).filter Prod.snd).map Prod.fst).map some := by
    rw [found, ← map_flaggedIndices length]
    exact List.map_congr_left fun i _ => List.getElem?_toArray
  rw [run, Option.map_some, (List.map_inj_right fun _ _ => Option.some.inj).mp same]

end TableQuery
