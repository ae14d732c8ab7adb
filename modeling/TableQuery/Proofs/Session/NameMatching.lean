import TableQuery.Proofs.Session.NameActions
import TableQuery.Proofs.Text.Upper

/-!
# How names are matched

Registered tables and what a session declares are kept under the upper case of their names, in which
every letter counts. A column, the table in front of it and an inline table are matched up to the
case of ASCII letters only. So names that all registries take for one, such as `É` and `é`, are two
names to headers and inline tables. Names of ASCII characters are matched alike everywhere.
-/

namespace TableQuery

open Text

variable {m n : String}

/-! ## By upper case -/

/-- Two names are one to all maps of names exactly if they have the same upper case. -/
theorem NameMap.get?_alike_iff {α : Type} (a : α) :
    (∀ names : NameMap α, names.get? m = names.get? n) ↔ upper m = upper n := by
  constructor
  · intro alike
    have found := alike (({} : NameMap α).insert m a)
    rw [get?_insert, get?_insert, if_pos rfl] at found
    by_contra differ
    rw [if_neg fun same => differ same.symm] at found
    cases found
  · intro same names
    exact names.get?_of_upper same

/-- A declaration of each kind. -/
def NameKind.sample : (kind : NameKind) → kind.Meaning
  | .var => .null
  | .view => { header := {}, records := [] }
  | .cursor => .pseudo "" { rows := [] }
  | .function => .ofBody "" 0 (.scalar fun _ => .ok .null)

/-- Two names are one to all sessions exactly if they have the same upper case. -/
theorem Engine.lookup_alike_iff {kind : NameKind} :
    (∀ (engine : Engine) (s : Session), engine.lookup s kind m = engine.lookup s kind n) ↔
      upper m = upper n := by
  constructor
  · intro alike
    refine (NameMap.get?_alike_iff kind.sample).1 fun names => ?_
    -- the session of one frame that declares these names and no others
    have one (name : String) : lookup { frames := [({} : Frame).setNames kind names] }
        { innermost := 0 } kind name = names.get? name := by
      simp [lookup, Scope.find?, Scope.frames, scope, frame]
    rw [← one m, ← one n]
    exact alike _ _
  · intro same engine s
    simp only [lookup, NameMap.get?_of_upper _ same]

/-! ## Up to the case of ASCII letters -/

namespace Column

theorem isMeantBy_column_congr (same : sameIgnoringCase m n = true) (c : Column) :
    c.isMeantBy none m = c.isMeantBy none n := by
  simp only [isMeantBy, hasAlias, sameIgnoringCase_congr same]

theorem isMeantBy_table_congr (same : sameIgnoringCase m n = true) (name : String) (c : Column) :
    c.isMeantBy (some m) name = c.isMeantBy (some n) name := by
  simp only [isMeantBy, sameIgnoringCase_congr same]

end Column

namespace Header

/-- References that mean the same columns find the same one. Only the error for several columns
repeats the reference as it is written. -/
theorem find?_congr {table table' : Option String}
    (alike : ∀ c : Column, c.isMeantBy table m = c.isMeantBy table' n) (h : Header) :
    (h.find? table m).toOption = (h.find? table' n).toOption := by
  unfold find?
  simp only [alike]
  split <;> rfl

/-- A header with one column answers a reference by that column or not at all. -/
theorem find?_single (c : Column) (table : Option String) (name : String) :
    (Header.mk [c]).find? table name = .ok (if c.isMeantBy table name then some 0 else none) := by
  cases meant : c.isMeantBy table name <;> simp [find?, indicesWhere, meant]

/-- Two names are one column to all headers exactly if they differ in the case of ASCII letters
only. -/
theorem find?_column_alike_iff :
    (∀ h : Header, (h.find? none m).toOption = (h.find? none n).toOption) ↔
      sameIgnoringCase m n = true := by
  constructor
  · intro alike
    have found := alike ⟨[.computed m]⟩
    rw [find?_single, find?_single] at found
    by_contra differ
    simp [Except.toOption, Column.isMeantBy, Column.computed, Column.hasAlias,
      sameIgnoringCase_refl, differ] at found
  · intro same h
    exact find?_congr (Column.isMeantBy_column_congr same) h

/-- Two names in front of a column are one table to all headers exactly if they differ in the case
of ASCII letters only. -/
theorem find?_table_alike_iff (column : String) :
    (∀ h : Header, (h.find? (some m) column).toOption = (h.find? (some n) column).toOption) ↔
      sameIgnoringCase m n = true := by
  constructor
  · intro alike
    have found := alike ⟨[{ table := m, name := column }]⟩
    rw [find?_single, find?_single] at found
    by_contra differ
    simp [Except.toOption, Column.isMeantBy, sameIgnoringCase_refl, differ] at found
  · intro same h
    exact find?_congr (Column.isMeantBy_table_congr same column) h

end Header

/-- Two names are one inline table to all environments exactly if they differ in the case of ASCII
letters only. -/
theorem Env.inlineTable?_alike_iff :
    (∀ env : Env, env.inlineTable? m = env.inlineTable? n) ↔ sameIgnoringCase m n = true := by
  constructor
  · intro alike
    have found := alike { inlineTables := [⟨m, { header := {}, records := [] }⟩] }
    by_contra differ
    simp [inlineTable?, sameIgnoringCase_refl, differ] at found
  · intro same env
    simp only [inlineTable?, sameIgnoringCase_congr same]

/-- Registries and sessions take two names for one exactly if their upper cases are the same; headers
and inline tables do exactly if the names differ in the case of ASCII letters only. The second kind
of names is of the first kind, too, and for names of ASCII characters the two kinds are one. -/
theorem names_denote_alike_iff (m n : String) :
    ((∀ catalog : Catalog, catalog.tables.get? m = catalog.tables.get? n) ↔ upper m = upper n) ∧
      (∀ kind : NameKind,
        (∀ (engine : Engine) (s : Session), engine.lookup s kind m = engine.lookup s kind n) ↔
          upper m = upper n) ∧
      ((∀ h : Header, (h.find? none m).toOption = (h.find? none n).toOption) ↔
        sameIgnoringCase m n = true) ∧
      (∀ column : String,
        (∀ h : Header, (h.find? (some m) column).toOption = (h.find? (some n) column).toOption) ↔
          sameIgnoringCase m n = true) ∧
      ((∀ env : Env, env.inlineTable? m = env.inlineTable? n) ↔ sameIgnoringCase m n = true) ∧
      (sameIgnoringCase m n = true → upper m = upper n) ∧
      ((∀ c ∈ m.toList, c.toNat < 128) → (∀ c ∈ n.toList, c.toNat < 128) → upper m = upper n →
        sameIgnoringCase m n = true) := by
  refine ⟨?_, fun kind => Engine.lookup_alike_iff, Header.find?_column_alike_iff,
    Header.find?_table_alike_iff, Env.inlineTable?_alike_iff, upper_of_sameIgnoringCase,
    sameIgnoringCase_of_ascii⟩
  rw [← NameMap.get?_alike_iff (StoredTable.mk [] [])]
  exact ⟨fun alike tables => alike { tables }, fun alike catalog => alike catalog.tables⟩

/-- An accented letter is one table and one view in either case, but two columns and two inline
tables; a letter of ASCII is one name everywhere. -/
theorem names_denote_alike_iff_accented :
    (upper "É" = upper "é" ∧ sameIgnoringCase "É" "é" = false) ∧
      (∀ catalog : Catalog, catalog.tables.get? "É" = catalog.tables.get? "é") ∧
      (∀ (engine : Engine) (s : Session), engine.lookup s .view "É" = engine.lookup s .view "é") ∧
      (¬ ∀ h : Header, (h.find? none "É").toOption = (h.find? none "é").toOption) ∧
      (¬ ∀ h : Header, (h.find? (some "É") "c").toOption = (h.find? (some "é") "c").toOption) ∧
      (¬ ∀ env : Env, env.inlineTable? "É" = env.inlineTable? "é") ∧
      upper "T" = upper "t" ∧ sameIgnoringCase "T" "t" = true := by
  have same : upper "É" = upper "é" := by decide +kernel
  have differ : sameIgnoringCase "É" "é" = false := by decide +kernel
  have plain : upper "T" = upper "t" := by decide +kernel
  obtain ⟨tables, declared, column, table, inline, -, -⟩ := names_denote_alike_iff "É" "é"
  obtain ⟨-, -, -, -, -, folded, ascii⟩ := names_denote_alike_iff "T" "t"
  rw [differ] at column table inline
  have one : sameIgnoringCase "T" "t" = true := ascii (by simp) (by simp) plain
  exact ⟨⟨same, differ⟩, tables.2 same, (declared .view).2 same,
    fun alike => Bool.noConfusion (column.1 alike),
    fun alike => Bool.noConfusion ((table "c").1 alike),
    fun alike => Bool.noConfusion (inline.1 alike), folded one, one⟩

end TableQuery
