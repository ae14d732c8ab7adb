import Mathlib.Data.List.Forall2
import TableQuery.Proofs.Evaluation.Meaning
import TableQuery.Proofs.Table.Members

/-!
# Rows with more columns

A row may stand in an environment with columns that were added to it. Where no lookup of an
expression is answered by an added column, the expression has the same value as on the row alone.
-/

namespace TableQuery

variable {P : Part → Prop} {h g : Header} {r q : Record}

/-! ## Lookups -/

/-- Whether an expression is looked up among the computed columns. -/
def Expr.lookedUp : Expr → Bool
  | .literal _ | .column _ _ | .allColumns | .tableColumns _ | .variable _ => false
  | _ => true

theorem Env.known?_eq (env : Env) (e : Expr) :
    env.known? e = if e.lookedUp then env.computed? fun _ => e.text else none := by
  cases e <;> rfl

/-- Whether the lookups that evaluating the part makes are answered by the header `g` as by `h`. -/
def Part.AnsweredAs (h g : Header) : Part → Prop
  | .expr (.column table name) => g.find? table name = h.find? table name
  | .expr e => e.lookedUp → g.findComputed? e.text = h.findComputed? e.text
  | .rejoin => ∀ table name, g.find? (some table) name = h.find? (some table) name

/-- The value that a column of the innermost record holds for a text. -/
theorem Env.computed?_bind (env : Env) (b : Binding) (text : Unit → String) :
    (env.bind b).computed? text = (b.header.findComputed? (text ())).map b.record.value := by
  show (if b.header.hasComputed then _ else none) = _
  split
  · rfl
  · rename_i hnone
    cases hf : b.header.findComputed? (text ()) with
    | none => rfl
    | some i =>
      obtain ⟨hlt, hc, -⟩ := List.findIdx?_eq_some_iff_getElem.mp hf
      rw [Bool.and_eq_true, Bool.and_eq_true] at hc
      exact absurd (List.any_eq_true.mpr ⟨_, List.getElem_mem hlt, hc.1.1⟩) hnone

/-- An expression is not evaluated if its value is known. -/
theorem Expr.eval_of_known {e : Expr} {env : Env} {v : Value} (h : env.known? e = some v) :
    e.eval env = pure v := by
  rw [Expr.eval.eq_def, h]

/-! ## Alike environments -/

/-- Two bindings that answer the lookups of parts alike: the same one twice, or two rows of which
the one has the values of the other and maybe more. -/
inductive Binding.Alike (P : Part → Prop) : Binding → Binding → Prop
  | refl (b : Binding) : Alike P b b
  | rows {h g : Header} {r q : Record} (answered : ∀ p, P p → p.AnsweredAs h g)
    (values : ∀ i < h.width, q.value i = r.value i) :
    Alike P { header := g, record := q } { header := h, record := r }

/-- Two environments that differ in columns that were added to rows. -/
structure Env.Alike (P : Part → Prop) (a b : Env) : Prop where
  settings : a.settings = b.settings
  inlineTables : a.inlineTables = b.inlineTables
  recursive : a.recursive = b.recursive
  bindings : List.Forall₂ (Binding.Alike P) a.bindings b.bindings

theorem tail_alike {bs cs : List Binding} (h : List.Forall₂ (Binding.Alike P) bs cs) :
    List.Forall₂ (Binding.Alike P) bs.tail cs.tail := by
  cases h with
  | nil => exact .nil
  | cons _ rest => exact rest

theorem columnIn_alike {table : Option String} {name : String} {bs cs : List Binding}
    (hb : List.Forall₂ (Binding.Alike P) bs cs)
    (answered : ∀ h g, (∀ p, P p → p.AnsweredAs h g) → g.find? table name = h.find? table name) :
    Env.columnIn table name bs = Env.columnIn table name cs := by
  induction hb with
  | nil => rfl
  | cons first _ ih =>
    -- a name is looked up further out only if this binding does not have it
    unfold Env.columnIn
    cases first with
    | refl b => rw [ih]
    | @rows h g r q alike values =>
      dsimp only
      rw [answered h g alike]
      cases hf : h.find? table name with
      | error e => rfl
      | ok i? =>
        cases i? with
        | none => exact ih
        | some i =>
          dsimp only
          rw [values i (Header.lt_of_find? hf)]
          rfl

theorem computed?_alike {a b : Env} (hab : Env.Alike P a b) {text : String}
    (answered : ∀ h g, (∀ p, P p → p.AnsweredAs h g) →
      g.findComputed? text = h.findComputed? text) :
    (a.computed? fun _ => text) = b.computed? fun _ => text := by
  obtain ⟨_, bs, _, _⟩ := a
  obtain ⟨_, cs, _, _⟩ := b
  obtain ⟨rfl, rfl, rfl, hb⟩ := hab
  cases hb with
  | nil => rfl
  | cons first _ =>
    cases first with
    | refl b => rfl
    | @rows h g r q alike values =>
      have left := Env.computed?_bind {} { header := g, record := q } fun _ => text
      have right := Env.computed?_bind {} { header := h, record := r } fun _ => text
      refine left.trans (.trans ?_ right.symm)
      dsimp only
      rw [answered h g alike]
      cases hf : h.findComputed? text with
      | none => rfl
      | some i => exact congrArg some (values i (Header.lt_of_findComputed? hf))

theorem known?_alike {a b : Env} (hab : Env.Alike P a b) {e : Expr} (he : P (.expr e)) :
    a.known? e = b.known? e := by
  rw [Env.known?_eq, Env.known?_eq]
  split
  · rename_i looked
    refine computed?_alike hab fun h g answered => ?_
    have same := answered _ he
    cases e <;> first | exact same looked | cases looked
  · rfl

/-- Alike environments are exchanged for each other. -/
theorem alike_agreement (P : Part → Prop) :
    Env.Agreement (fun _ => True) P (Env.Alike P) where
  settings h := h.settings
  inlineTable h name := by rw [Env.inlineTable?, Env.inlineTable?, h.recursive, h.inlineTables]
  bind h x := ⟨h.settings, h.inlineTables, h.recursive, .cons (.refl x) h.bindings⟩
  rebind h header record :=
    ⟨h.settings, h.inlineTables, h.recursive, .cons (.refl _) (tail_alike h.bindings)⟩
  detached h := ⟨h.settings, h.inlineTables, h.recursive, .nil⟩
  withInlineTable h t :=
    ⟨h.settings, congrArg (t :: ·) h.inlineTables, h.recursive, h.bindings⟩
  withRecursive h t := ⟨h.settings, h.inlineTables, rfl, h.bindings⟩
  column h hp := columnIn_alike h.bindings fun _ _ answered => answered _ hp
  reference h hp table name :=
    columnIn_alike h.bindings fun _ _ answered => answered _ hp table name
  known h hp := known?_alike h hp
  group {a b} h function := by
    obtain ⟨_, bs, _, _⟩ := a
    obtain ⟨_, cs, _, _⟩ := b
    obtain ⟨rfl, rfl, rfl, hb⟩ := h
    cases hb with
    | nil => rfl
    | cons first _ => cases first <;> rfl
  assign _ _ _ _ _ _ := trivial

/-! ## Rows of a group -/

/-- A row with added columns in place of the row alone. -/
theorem rebind_alike (env : Env) (extended : r.Extends h.width q) :
    Env.Alike (Part.AnsweredAs h g) (env.rebind g q) (env.rebind h r) where
  settings := rfl
  inlineTables := rfl
  recursive := rfl
  bindings := .cons (.rows (fun _ => id) fun _ hi => extended.value_eq hi)
    (List.forall₂_same.mpr fun b _ => .refl b)

variable {rows extended : List Record}

/-- An expression has the same values on all rows, with the added columns or without. -/
theorem evalMembers_extended {e : Expr} (answered : AllParts (Part.AnsweredAs h g) e.parts)
    (env : Env) (hrows : List.Forall₂ (Record.Extends h.width) rows extended) :
    Eval.Same (fun _ => True) (evalMembers ⟨e, fun env => e.eval env⟩ env g extended)
      (evalMembers ⟨e, fun env => e.eval env⟩ env h rows) := by
  refine .mapM_related (hrows.flip.imp fun q r hrq => ?_)
  exact e.eval_same (alike_agreement _) answered (rebind_alike env hrq)

/-- Related records with the same keys stay related when they are sorted by them. -/
theorem sorted_forall₂ {R : Record → Record → Prop} (hrows : List.Forall₂ R rows extended)
    (keys : List (List SortKey)) (orders : List KeyOrder) :
    List.Forall₂ R ((sortByKeys orders (keys.zip rows)).map Prod.snd)
      ((sortByKeys orders (keys.zip extended)).map Prod.snd) := by
  have zipped : List.Forall₂ (fun a b : List SortKey × Record => a.1 = b.1 ∧ R a.2 b.2)
      (keys.zip rows) (keys.zip extended) := by
    induction hrows generalizing keys with
    | nil => simp
    | cons h _ ih =>
      cases keys with
      | nil => simp
      | cons key keys => exact .cons ⟨rfl, h⟩ (ih keys)
  have sorted : List.Forall₂ _ (sortByKeys orders (keys.zip rows))
      (sortByKeys orders (keys.zip extended)) :=
    stableSort_forall₂ (fun a b c d hac hbd => by rw [hac.1, hbd.1]) zipped
  rw [List.forall₂_map_left_iff, List.forall₂_map_right_iff]
  exact sorted.imp fun a b h => h.2

/-- The rows are sorted alike, with the added columns or without. -/
theorem sortMembers_extended {α : Type} {order : List OrderItem}
    (answered : AllParts (Part.AnsweredAs h g) (partsOfOrder order)) (env : Env)
    (hrows : List.Forall₂ (Record.Extends h.width) rows extended) {f f' : List Record → Eval α}
    (hf : ∀ rows extended, List.Forall₂ (Record.Extends h.width) rows extended →
      Eval.Same (fun _ => True) (f extended) (f' rows)) :
    Eval.Same (fun _ => True) (sortMembers (sortOperands order) env g extended >>= f)
      (sortMembers (sortOperands order) env h rows >>= f') := by
  have A := alike_agreement (Part.AnsweredAs h g)
  unfold sortMembers
  split
  · exact hf rows extended hrows
  · have keysSame : Eval.Same (fun _ => True)
        (extended.mapM fun q => evalSortKeys (sortOperands order) (env.rebind g q))
        (rows.mapM fun r => evalSortKeys (sortOperands order) (env.rebind h r)) := by
      refine .mapM_related (hrows.flip.imp fun q r hrq => ?_)
      exact evalSortKeys_same A (sortOperands_agree A order answered) (rebind_alike env hrq)
    rw [bind_assoc, bind_assoc]
    refine keysSame.bind fun keys => ?_
    rw [pure_bind, pure_bind]
    exact hf _ _ (sorted_forall₂ hrows keys _)

end TableQuery
