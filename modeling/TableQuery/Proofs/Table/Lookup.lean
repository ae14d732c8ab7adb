import Mathlib.Data.List.Basic
import Mathlib.Data.List.Induction
import TableQuery.Proofs.Table.Growth

/-!
# Lookups in growing headers

A header that grows goes on to find what it found. It may find more, so that a name becomes
ambiguous or an expression is answered by a computed column; but what it answers alike at the end
was answered alike all the way.
-/

namespace TableQuery

open Text

namespace Column

theorem hasAlias_addAlias {c : Column} {name : String} (other : String) (h : c.hasAlias name) :
    (c.addAlias other).hasAlias name := by
  unfold addAlias
  split
  · exact h
  · exact List.any_append.trans (Bool.or_eq_true_iff.mpr (.inl h))

/-- An alias only adds to what means a column. -/
theorem isMeantBy_addAlias {c : Column} {table : Option String} {name : String} (other : String)
    (h : c.isMeantBy table name) : (c.addAlias other).isMeantBy table name := by
  have same : (c.addAlias other).table = c.table ∧ (c.addAlias other).name = c.name ∧
      (c.addAlias other).joined = c.joined ∧ (c.addAlias other).hidden = c.hidden := by
    unfold addAlias
    split <;> exact ⟨rfl, rfl, rfl, rfl⟩
  obtain ⟨htable, hname, hjoined, hhidden⟩ := same
  unfold isMeantBy at h ⊢
  rw [htable, hname, hjoined, hhidden]
  cases table with
  | some t => exact h
  | none =>
    dsimp only at h ⊢
    rw [Bool.and_eq_true, Bool.or_eq_true] at h ⊢
    exact ⟨h.1, h.2.imp_right (hasAlias_addAlias other)⟩

end Column

namespace Header

theorem indicesWhere_eq_filter (h : Header) (p : Column → Bool) :
    h.indicesWhere p = (List.range h.width).filter fun i => h.columns[i]?.any p := by
  obtain ⟨columns⟩ := h
  unfold indicesWhere width
  dsimp only
  induction columns using List.reverseRecOn with
  | nil => rfl
  | append_singleton columns c ih =>
    rw [List.zipIdx_append, List.filter_append, List.map_append, ih, List.length_append,
      List.length_singleton, List.range_succ, List.filter_append]
    congr 1
    · refine List.filter_congr fun i hi => ?_
      rw [List.getElem?_append_left (List.mem_range.mp hi)]
    · cases hp : p c <;> simp [hp]

/-- What a header finds is found in the other one, too. -/
structure Within (h g : Header) : Prop where
  meant : ∀ table name, (h.indicesWhere fun c => c.isMeantBy table name).Sublist
    (g.indicesWhere fun c => c.isMeantBy table name)
  computed : ∀ text i, h.findComputed? text = some i → g.findComputed? text = some i

theorem Within.refl (h : Header) : h.Within h where
  meant _ _ := .refl _
  computed _ _ := id

theorem Within.trans {h g k : Header} (hg : h.Within g) (gk : g.Within k) : h.Within k where
  meant table name := (hg.meant table name).trans (gk.meant table name)
  computed text i hi := gk.computed text i (hg.computed text i hi)

/-- A reference that is answered alike at both ends is answered so in between. -/
theorem Within.find?_eq {h g k : Header} (hg : h.Within g) (gk : g.Within k)
    {table : Option String} {name : String} (same : k.find? table name = h.find? table name) :
    g.find? table name = h.find? table name := by
  have first := hg.meant table name
  have second := gk.meant table name
  unfold find? at same ⊢
  generalize h.indicesWhere (fun c => c.isMeantBy table name) = is at first same ⊢
  generalize g.indicesWhere (fun c => c.isMeantBy table name) = js at first second ⊢
  generalize k.indicesWhere (fun c => c.isMeantBy table name) = ks at second same
  have lower := first.length_le
  have upper := second.length_le
  rcases is with _ | ⟨i, _ | ⟨i', is⟩⟩
  · rcases ks with _ | ⟨k, _ | ⟨k', ks⟩⟩
    · rw [List.sublist_nil.mp second]
    · cases same
    · cases same
  · rcases ks with _ | ⟨k, _ | ⟨k', ks⟩⟩
    · cases same
    · rw [← first.eq_of_length (Nat.le_antisymm lower upper)]
    · cases same
  · -- two columns that are meant stay two
    rcases js with _ | ⟨j, _ | ⟨j', js⟩⟩
    · simp at lower
    · simp at lower
    · rfl

theorem Within.findComputed?_eq {h g k : Header} (hg : h.Within g) (gk : g.Within k)
    {text : String} (same : k.findComputed? text = h.findComputed? text) :
    g.findComputed? text = h.findComputed? text := by
  cases hf : h.findComputed? text with
  | some i => exact hg.computed text i hf
  | none =>
    cases hj : g.findComputed? text with
    | none => rfl
    | some j =>
      rw [hf, gk.computed text j hj] at same
      cases same

/-! ## Added columns -/

theorem findComputed?_push (h : Header) (text added : String) :
    (h.push (.computed added)).findComputed? text =
      (h.findComputed? text).or
        (if !added.isEmpty && added == text then some h.width else none) := by
  unfold findComputed? push width
  rw [List.findIdx?_append]
  simp [Column.computed, List.findIdx?_cons]

/-- A column that is added for one text answers for no other. -/
theorem findComputed?_push_of_ne (h : Header) {text added : String} (other : added ≠ text) :
    (h.push (.computed added)).findComputed? text = h.findComputed? text := by
  rw [findComputed?_push, beq_false_of_ne other, Bool.and_false, if_neg Bool.false_ne_true,
    Option.or_none]

theorem within_push (h : Header) (c : Column) : h.Within (h.push c) where
  meant table name := by
    rw [indicesWhere_eq_filter, indicesWhere_eq_filter, width_push, List.range_succ,
      List.filter_append]
    have before : ∀ i ∈ List.range h.width, (h.push c).columns[i]? = h.columns[i]? := fun i hi =>
      List.getElem?_append_left (List.mem_range.mp hi)
    rw [← List.filter_congr fun i hi => congrArg (Option.any _) (before i hi)]
    exact List.sublist_append_left _ _
  computed text i hi := by
    unfold findComputed? push at *
    rw [List.findIdx?_append, hi]
    rfl

/-- A change that a test does not see does not move what passes it. -/
theorem findIdx?_modify {p : Column → Bool} {f : Column → Column} (hf : ∀ c, p (f c) = p c)
    (columns : List Column) (i : Nat) : (columns.modify i f).findIdx? p = columns.findIdx? p := by
  induction columns generalizing i with
  | nil => rw [List.modify_nil]
  | cons c columns ih =>
    cases i with
    | zero => rw [List.modify_zero_cons, List.findIdx?_cons, List.findIdx?_cons, hf]
    | succ i => rw [List.modify_succ_cons, List.findIdx?_cons, List.findIdx?_cons, ih]

theorem findComputed?_addAlias (h : Header) (i : Nat) (other text : String) :
    (h.modify i fun c => c.addAlias other).findComputed? text = h.findComputed? text := by
  refine findIdx?_modify (fun c => ?_) h.columns i
  unfold Column.addAlias
  split <;> rfl

theorem within_addAlias (h : Header) (i : Nat) (other : String) :
    h.Within (h.modify i fun c => c.addAlias other) where
  meant table name := by
    rw [indicesWhere_eq_filter, indicesWhere_eq_filter, width_modify]
    refine List.monotone_filter_right _ fun j hj => ?_
    dsimp only [modify]
    rw [List.getElem?_modify]
    cases hc : h.columns[j]? with
    | none =>
      rw [hc] at hj
      cases hj
    | some c =>
      rw [hc] at hj
      have meant : c.isMeantBy table name := hj
      show (if i = j then c.addAlias other else c).isMeantBy table name = true
      split
      · exact Column.isMeantBy_addAlias other meant
      · exact meant
  computed text j hj := (findComputed?_addAlias h i other text).trans hj

end Header

namespace View

variable {v w : View}

theorem Change.within (h : v.Change w) : v.header.Within w.header := by
  cases h with
  | reorder => exact .refl _
  | push => exact Header.within_push _ _
  | addAlias => exact Header.within_addAlias _ _ _

/-- What a view finds is found after it grows, too. -/
theorem Grows.within (h : v.Grows w) : v.header.Within w.header := by
  induction h with
  | refl => exact .refl _
  | tail _ change ih => exact ih.trans change.within

end View

end TableQuery
