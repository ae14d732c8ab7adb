import TableQuery.Proofs.Evaluation.Recursion

/-!
# Names of tables

What a name means within the tables of a `WITH` clause and within the steps of recursive tables.
Tables of `WITH` clauses pile up, and a name that none of the later ones bears keeps its meaning. Of
the tables that are being built only the innermost is known: a step forgets the one in whose step it
is itself.
-/

namespace TableQuery

open Eval Text

/-! ## Lookup -/

namespace Env

variable {env : Env} {t : InlineTable} {name : String}

/-- The environment in which no table is being built. -/
def outsideRecursion (env : Env) : Env :=
  { env with recursive := none }

@[simp] theorem outsideRecursion_withRecursive (env : Env) (t : InlineTable) :
    (env.withRecursive t).outsideRecursion = env.outsideRecursion := rfl

@[simp] theorem outsideRecursion_withInlineTable (env : Env) (t : InlineTable) :
    (env.withInlineTable t).outsideRecursion = env.outsideRecursion.withInlineTable t := rfl

/-- A step within a step knows its own table only. -/
@[simp] theorem withRecursive_withRecursive (env : Env) (outer t : InlineTable) :
    (env.withRecursive outer).withRecursive t = env.withRecursive t := rfl

/-- Outside of all steps the latest table of a name counts. -/
theorem inlineTable?_outsideRecursion (env : Env) (name : String) :
    env.outsideRecursion.inlineTable? name
      = env.inlineTables.find? fun t => sameIgnoringCase t.name name := rfl

/-- The table that is being built comes before all others. -/
theorem inlineTable?_eq (env : Env) (name : String) :
    env.inlineTable? name
      = (env.recursive.filter fun t => sameIgnoringCase t.name name).or
          (env.outsideRecursion.inlineTable? name) := by
  rw [inlineTable?_outsideRecursion, inlineTable?, List.find?_append]
  cases env.recursive with
  | none => rfl
  | some t => rw [Option.toList_some, List.find?_singleton, Option.filter_some]

theorem inlineTable?_of_unbuilt
    (h : ∀ t ∈ env.recursive, sameIgnoringCase t.name name = false) :
    env.inlineTable? name = env.outsideRecursion.inlineTable? name := by
  rw [inlineTable?_eq, Option.filter_eq_none_iff.mpr fun t ht => by simp [h t ht], Option.none_or]

/-- Within a step all names but that of its table mean what they mean outside of all steps. -/
theorem inlineTable?_withRecursive (h : sameIgnoringCase t.name name = false) :
    (env.withRecursive t).inlineTable? name = env.outsideRecursion.inlineTable? name := by
  refine inlineTable?_of_unbuilt fun u hu => ?_
  cases hu
  exact h

/-- An inline table leaves the other names alone. -/
theorem inlineTable?_withInlineTable (h : sameIgnoringCase t.name name = false) :
    (env.withInlineTable t).inlineTable? name = env.inlineTable? name := by
  have later : (env.withInlineTable t).inlineTables.find? (sameIgnoringCase ·.name name)
      = env.inlineTables.find? (sameIgnoringCase ·.name name) :=
    List.find?_cons_of_neg (Bool.eq_false_iff.mp h)
  rw [inlineTable?_eq, inlineTable?_eq env, inlineTable?_outsideRecursion,
    inlineTable?_outsideRecursion, ← later]
  rfl

/-- An inline table is found under its name, unless a table of that name is being built. -/
theorem inlineTable?_withInlineTable_self (h : sameIgnoringCase t.name name = true)
    (unbuilt : ∀ t ∈ env.recursive, sameIgnoringCase t.name name = false) :
    (env.withInlineTable t).inlineTable? name = some t := by
  have first : (env.withInlineTable t).inlineTables.find? (sameIgnoringCase ·.name name)
      = some t := List.find?_cons_of_pos h
  have known : (env.withInlineTable t).inlineTable? name
      = (env.withInlineTable t).outsideRecursion.inlineTable? name :=
    inlineTable?_of_unbuilt unbuilt
  exact known.trans first

/-- A name keeps its meaning within a step if it means no table that is being built around it, or
the same one without that. -/
theorem inlineTable?_outsideRecursion_eq_iff :
    env.outsideRecursion.inlineTable? name = env.inlineTable? name ↔
      ∀ outer ∈ env.recursive, sameIgnoringCase outer.name name = true →
        env.outsideRecursion.inlineTable? name = some outer := by
  rw [inlineTable?_eq env]
  constructor
  · intro h outer houter same
    rw [h, houter, Option.filter_some, if_pos same, Option.some_or]
  · intro h
    cases hr : env.recursive with
    | none => rfl
    | some outer =>
      rw [Option.filter_some]
      split
      · rw [h outer hr ‹_›, Option.some_or]
      · rfl

end Env

/-! ## Nested tables -/

/-- What stands around a query within another one: a table of a `WITH` clause, or the step of a
recursive table. -/
inductive Enclosing where
  | table (t : InlineTable)
  | step (t : InlineTable)

namespace Enclosing

/-- The table that is known within. -/
def known : Enclosing → InlineTable
  | table t | step t => t

def isStep : Enclosing → Bool
  | table _ => false
  | step _ => true

/-- The environment within. -/
def enter (env : Env) : Enclosing → Env
  | table t => env.withInlineTable t
  | step t => env.withRecursive t

end Enclosing

/-- The environment within all that stands around a query, outermost first. -/
def Env.within (env : Env) (around : List Enclosing) : Env :=
  around.foldl Enclosing.enter env

/-- Other names mean the same within any nesting of tables; as soon as there is a step among them,
they no longer mean a table that was being built. -/
theorem Env.inlineTable?_within {env : Env} {name : String} {around : List Enclosing}
    (others : ∀ e ∈ around, sameIgnoringCase e.known.name name = false) :
    (env.within around).inlineTable? name =
      if around.any Enclosing.isStep then env.outsideRecursion.inlineTable? name
      else env.inlineTable? name := by
  induction around generalizing env with
  | nil => rfl
  | cons e around ih =>
    obtain ⟨other, others⟩ := List.forall_mem_cons.mp others
    rw [Env.within, List.foldl_cons]
    refine (ih others).trans ?_
    cases e with
    | table t =>
      have inside : (env.withInlineTable t).inlineTable? name = env.inlineTable? name :=
        inlineTable?_withInlineTable other
      have outside : (env.outsideRecursion.withInlineTable t).inlineTable? name
          = env.outsideRecursion.inlineTable? name := inlineTable?_withInlineTable other
      simp only [Enclosing.enter, outsideRecursion_withInlineTable, inside, outside,
        List.any_cons, Enclosing.isStep, Bool.false_or]
    | step t =>
      have inside : (env.withRecursive t).inlineTable? name
          = env.outsideRecursion.inlineTable? name := inlineTable?_withRecursive other
      simp only [Enclosing.enter, outsideRecursion_withRecursive, inside, ite_self, List.any_cons,
        Enclosing.isStep, Bool.true_or, if_true]

/-! ## Clauses and rounds -/

/-- The name that a definition gives to its table. -/
def InlineDef.name : InlineDef → String
  | mk name _ _ => name

variable {env after : Env} {s t : Scope}

/-- After a `WITH` clause its tables are known, each under its name, and nothing else has changed.
-/
theorem inlineTables_within {defs : List InlineDef} {recursive : Bool}
    (h : exec (inlineTables defs recursive env) s = (.ok after, t)) :
    ∃ tables : List InlineTable, tables.map InlineTable.name = defs.map InlineDef.name ∧
      after = env.within (tables.map Enclosing.table) := by
  induction defs generalizing env s with
  | nil =>
    cases h
    exact ⟨[], rfl, rfl⟩
  | cons d defs ih =>
    obtain ⟨name, columns, q⟩ := d
    rw [inlineTables] at h
    obtain ⟨v, _, -, h⟩ := exec_bind_eq_ok h
    obtain ⟨tables, names, rfl⟩ := ih h
    exact ⟨⟨name, v⟩ :: tables, congrArg (name :: ·) names, rfl⟩

/-- A `WITH` clause leaves the names alone that it does not define. -/
theorem inlineTable?_of_inlineTables {defs : List InlineDef} {recursive : Bool} {name : String}
    (h : exec (inlineTables defs recursive env) s = (.ok after, t))
    (others : ∀ d ∈ defs, sameIgnoringCase d.name name = false) :
    after.inlineTable? name = env.inlineTable? name := by
  obtain ⟨tables, names, rfl⟩ := inlineTables_within h
  have other : ∀ t ∈ tables, sameIgnoringCase t.name name = false := by
    intro t ht
    have defined : t.name ∈ defs.map InlineDef.name := names ▸ List.mem_map_of_mem ht
    obtain ⟨d, hd, same⟩ := List.mem_map.mp defined
    exact same ▸ others d hd
  rw [Env.inlineTable?_within (List.forall_mem_map.mpr other), List.any_map]
  exact if_neg (by simp [Enclosing.isStep])

/-- The rounds of a table see neither its anchor nor the table in whose step it is built. -/
theorem recursiveRounds_withRecursive (name : String) (header : Header) (parts : UnionParts)
    (anchor : Env → Eval View) (env : Env) (outer : InlineTable) (rounds : Nat)
    (seen : List String) (working : List Record) :
    recursiveRounds name header parts (env.withRecursive outer) rounds seen working
      = recursiveRounds name header { parts with anchor } env rounds seen working := by
  induction rounds generalizing seen working with
  | zero => rfl
  | succ rounds ih =>
    unfold recursiveRounds
    simp only [ih, Env.withRecursive_withRecursive]
    rfl

/-- Of a table that is built within the step of another one only the anchor sees that one. -/
theorem recursiveTable_withRecursive (name : String) (columns : List String) (parts : UnionParts)
    (env : Env) (outer : InlineTable) :
    recursiveTable name columns parts (env.withRecursive outer)
      = recursiveTable name columns
          { parts with anchor := fun _ => parts.anchor (env.withRecursive outer) } env := by
  unfold recursiveTable
  simp only [recursiveRounds_withRecursive name _ parts
    (fun _ => parts.anchor (env.withRecursive outer))]
  rfl

/-- **The step of a recursive table hides no other name, unless it is one of a table in whose step
it is nested.** Such a name means within the step what it means outside of all steps, whatever
inline tables and steps stand in between; a `WITH` clause hides no other name in any case. So of a
table that is built within a step the anchor sees the rows of the last round around it, and no step
does. -/
theorem step_hides_only_outer_recursion (env : Env) (r : InlineTable) (name : String)
    (other : sameIgnoringCase r.name name = false) :
    ((env.withRecursive r).inlineTable? name = env.inlineTable? name ↔
      ∀ outer ∈ env.recursive, sameIgnoringCase outer.name name = true →
        env.outsideRecursion.inlineTable? name = some outer) ∧
    (∀ around : List Enclosing, (∀ e ∈ around, sameIgnoringCase e.known.name name = false) →
      ((env.withRecursive r).within around).inlineTable? name
        = env.outsideRecursion.inlineTable? name) ∧
    (∀ defs recursive s after t, exec (inlineTables defs recursive env) s = (.ok after, t) →
      (∀ d ∈ defs, sameIgnoringCase d.name name = false) →
        after.inlineTable? name = env.inlineTable? name) ∧
    ∀ inner columns parts, recursiveTable inner columns parts (env.withRecursive r)
      = recursiveTable inner columns
          { parts with anchor := fun _ => parts.anchor (env.withRecursive r) } env := by
  refine ⟨?_, fun around others => ?_,
    fun defs recursive s after t h => inlineTable?_of_inlineTables h,
    fun inner columns parts => recursiveTable_withRecursive inner columns parts env r⟩
  · rw [Env.inlineTable?_withRecursive other]
    exact Env.inlineTable?_outsideRecursion_eq_iff
  · have outside : (env.withRecursive r).inlineTable? name
        = env.outsideRecursion.inlineTable? name := Env.inlineTable?_withRecursive other
    rw [Env.inlineTable?_within others, outside, Env.outsideRecursion_withRecursive, ite_self]

/-- The step of a table `i` within the step of a table `o` does not know `o`. -/
theorem step_hides_only_outer_recursion_nested :
    sameIgnoringCase "i" "O" = false ∧
      (({} : Env).withRecursive ⟨"o", .dual⟩).inlineTable? "O" = some ⟨"o", .dual⟩ ∧
      ((({} : Env).withRecursive ⟨"o", .dual⟩).withRecursive ⟨"i", .dual⟩).inlineTable? "O"
        = none := by
  have other : sameIgnoringCase "i" "O" = false := by decide +kernel
  have same : sameIgnoringCase "o" "O" = true := by decide +kernel
  have hidden := (step_hides_only_outer_recursion (({} : Env).withRecursive ⟨"o", .dual⟩)
    ⟨"i", .dual⟩ "O" other).2.1 [] (List.forall_mem_nil _)
  exact ⟨other, List.find?_cons_of_pos same, hidden⟩

end TableQuery
