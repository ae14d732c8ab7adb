import TableQuery.Proofs.Evaluation.Results
import TableQuery.Proofs.Evaluation.WellFormed
import TableQuery.Proofs.Table.Members

/-!
# Key columns of groups

`GROUP BY` leaves the columns of a view where they are and marks those that are keys. A key that is
no column gets one of its own behind them, and the rows have its values at their ends.
-/

namespace TableQuery

open Eval

variable {v w : View} {env : Env} {s t : Scope}

/-! ## Key columns -/

/-- The entries with a flag. -/
def flagged {α : Type} (flags : List Bool) (xs : List α) : List α :=
  ((xs.zip flags).filter Prod.snd).map Prod.fst

theorem length_flagged {α : Type} {flags : List Bool} {xs : List α}
    (h : xs.length = flags.length) : (flagged flags xs).length = (flags.filter id).length := by
  induction flags generalizing xs with
  | nil => simp [flagged]
  | cons flag flags ih =>
    cases xs with
    | nil => cases h
    | cons x xs =>
      have rest := ih (Nat.succ.inj h)
      unfold flagged at rest ⊢
      cases flag with
      | true => simpa using rest
      | false => simpa using rest

/-- The column is the same, except that it may have become a group key. -/
def Column.Marked (c d : Column) : Prop :=
  d = c ∨ d = { c with groupKey := true }

/-- The column of a key that has a cell of its own. -/
def Column.keyOf (e : Expr) : Column :=
  { Column.computed e.text with groupKey := true }

theorem Column.Marked.trans {b c d : Column} (h : b.Marked c) (k : c.Marked d) : b.Marked d := by
  obtain rfl | rfl := h
  · exact k
  · obtain rfl | rfl := k
    · exact .inr rfl
    · exact .inr rfl

theorem Column.Marked.eq_keyOf {e : Expr} {d : Column} (h : (keyOf e).Marked d) : d = keyOf e := by
  obtain rfl | rfl := h
  · rfl
  · rfl

namespace Header

variable {g h k : Header} {item : Expr} {items : List Expr} {own : Bool} {owns : List Bool}

/-- The columns stay where they are. -/
def Stays (h k : Header) : Prop :=
  ∀ (j : Nat) (c : Column), h.columns[j]? = some c → ∃ d, k.columns[j]? = some d ∧ c.Marked d

theorem Stays.refl (h : Header) : h.Stays h :=
  fun _ c hc => ⟨c, hc, .inl rfl⟩

theorem Stays.trans (hg : h.Stays g) (hk : g.Stays k) : h.Stays k := by
  intro j b hb
  obtain ⟨c, hc, first⟩ := hg j b hb
  obtain ⟨d, hd, second⟩ := hk j c hc
  exact ⟨d, hd, first.trans second⟩

theorem stays_push (h : Header) (c : Column) : h.Stays (h.push c) := by
  intro j d hd
  refine ⟨d, ?_, .inl rfl⟩
  rw [push, List.getElem?_append_left (List.getElem?_eq_some_iff.mp hd).1, hd]

theorem stays_mark (h : Header) (i : Nat) :
    h.Stays (h.modify i fun c => { c with groupKey := true }) := by
  intro j c hc
  rw [modify, List.getElem?_modify, hc]
  by_cases at_mark : i = j
  · exact ⟨_, rfl, .inr (if_pos at_mark)⟩
  · exact ⟨_, rfl, .inl (if_neg at_mark)⟩

/-- What one grouping expression does to the header. -/
theorem addGroupKey_cases (hk : h.addGroupKey item = .ok (k, own)) :
    (own = true ∧ k = h.push (.keyOf item)) ∨
      (own = false ∧ k.width = h.width ∧ h.Stays k) := by
  unfold addGroupKey at hk
  split at hk
  · rename_i table name
    cases hf : h.find? table name with
    | error e =>
      rw [hf] at hk
      cases hk
    | ok i? =>
      rw [hf] at hk
      cases i? with
      | none =>
        cases hk
        exact .inr ⟨rfl, rfl, .refl h⟩
      | some i =>
        cases hk
        exact .inr ⟨rfl, width_modify .., h.stays_mark i⟩
  · split at hk
    · cases hk
      exact .inr ⟨rfl, rfl, .refl h⟩
    · cases hk
      exact .inl ⟨rfl, rfl⟩

theorem addGroupKeys_cons (hk : h.addGroupKeys (item :: items) = .ok (k, owns)) :
    ∃ g own rest, h.addGroupKey item = .ok (g, own) ∧ g.addGroupKeys items = .ok (k, rest) ∧
      owns = own :: rest := by
  unfold addGroupKeys at hk
  cases hfirst : h.addGroupKey item with
  | error e =>
    rw [hfirst] at hk
    cases hk
  | ok first =>
    obtain ⟨g, own⟩ := first
    rw [hfirst] at hk
    dsimp only [bind, Except.bind] at hk
    cases hrest : g.addGroupKeys items with
    | error e =>
      rw [hrest] at hk
      cases hk
    | ok rest =>
      rw [hrest] at hk
      cases hk
      exact ⟨g, own, rest.2, rfl, hrest, rfl⟩

theorem addGroupKeys_length (hk : h.addGroupKeys items = .ok (k, owns)) :
    owns.length = items.length := by
  induction items generalizing h owns with
  | nil =>
    cases hk
    rfl
  | cons item items ih =>
    obtain ⟨g, own, rest, -, hrest, rfl⟩ := addGroupKeys_cons hk
    exact congrArg (· + 1) (ih hrest)

/-- Grouping keeps the columns and puts those of the keys that need cells of their own behind. -/
theorem addGroupKeys_columns (hk : h.addGroupKeys items = .ok (k, owns)) :
    h.Stays k ∧ k.columns.drop h.width = (flagged owns items).map Column.keyOf := by
  induction items generalizing h owns with
  | nil =>
    cases hk
    exact ⟨.refl _, List.drop_length⟩
  | cons item items ih =>
    obtain ⟨g, own, rest, hfirst, hrest, rfl⟩ := addGroupKeys_cons hk
    obtain ⟨stays, behind⟩ := ih hrest
    obtain ⟨rfl, rfl⟩ | ⟨rfl, width, first⟩ := addGroupKey_cases hfirst
    · -- the new column is a group key already, so no later key changes it
      refine ⟨(h.stays_push _).trans stays, ?_⟩
      obtain ⟨d, hd, marked⟩ := stays h.width (.keyOf item) List.getElem?_concat_length
      obtain ⟨lt, hd⟩ := List.getElem?_eq_some_iff.mp hd
      rw [width_push] at behind
      rw [List.drop_eq_getElem_cons lt, hd, behind, marked.eq_keyOf]
      rfl
    · rw [width] at behind
      exact ⟨first.trans stays, behind⟩

theorem Stays.width_le (h : g.Stays k) : g.width ≤ k.width := by
  by_contra shorter
  have lt : k.width < g.width := Nat.not_le.mp shorter
  obtain ⟨d, hd, -⟩ := h k.width _ (List.getElem?_eq_getElem lt)
  exact absurd (List.getElem?_eq_some_iff.mp hd).1 (Nat.lt_irrefl _)

theorem addGroupKeys_width (hk : h.addGroupKeys items = .ok (k, owns)) :
    k.width = h.width + (owns.filter id).length := by
  obtain ⟨stays, behind⟩ := addGroupKeys_columns hk
  have longer := congrArg List.length behind
  rw [List.length_drop, List.length_map,
    length_flagged (addGroupKeys_length hk).symm] at longer
  have wider := stays.width_le
  unfold width at wider longer ⊢
  omega

end Header

/-! ## Groups -/

/-- What the rows are grouped by, and what becomes of them. -/
theorem View.groupBy_eq_ok {items : List Operand}
    (h : exec (v.groupBy items env) s = (.ok w, t)) :
    ∃ keys header owns,
      exec (v.bindings.mapM fun b => evalAll items (env.bind b)) s = (.ok keys, t) ∧
      v.header.addGroupKeys (items.map Operand.expr) = .ok (header, owns) ∧
      w = { v with
        header
        records := (groupIndices env.clock keys).map fun indices => Record.group header.width
          (indices.filterMap fun i => (v.records.zipWith (fun r key => r.append
            (.ofValues (flagged owns key))) keys)[i]?)
        grouped := true } := by
  obtain ⟨keys, _, hkeys, h⟩ := exec_bind_eq_ok h
  obtain ⟨⟨header, owns⟩, _, hheader, h⟩ := exec_bind_eq_ok h
  cases h
  have lifted : v.header.addGroupKeys (items.map Operand.expr) = .ok (header, owns) ∧ _ = t :=
    Prod.mk.inj hheader
  exact ⟨keys, header, owns, lifted.2 ▸ hkeys, lifted.1, rfl⟩

end TableQuery
