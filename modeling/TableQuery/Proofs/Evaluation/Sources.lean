import TableQuery.Proofs.Evaluation.Operators
import TableQuery.Proofs.Evaluation.Results
import TableQuery.Proofs.Table.Width

/-!
# Agreement of joins and sources
-/

namespace TableQuery

variable {I : Scope → Prop} {P : Part → Prop} {R : Env → Env → Prop}

/-! ## Joins -/

/-- A condition with the same meaning in related environments. -/
def JoinCondition.Agrees (I : Scope → Prop) (R : Env → Env → Prop) (c : JoinCondition) : Prop :=
  ∀ a b, R a b → Eval.Same I (c.eval a) (c.eval b)

/-- A condition with the same meaning on the records of a header. -/
def JoinCondition.AgreesOn (I : Scope → Prop) (R : Env → Env → Prop) (header : Header)
    (c : JoinCondition) : Prop :=
  ∀ a b, R a b → ∀ record : Record,
    Eval.Same I (c.eval (a.bind { header, record })) (c.eval (b.bind { header, record }))

theorem testPair_same {header : Header} {condition : Option JoinCondition}
    (hc : ∀ c ∈ condition, c.AgreesOn I R header) {a b : Env} (h : R a b) (record : Record) :
    Eval.Same I (testPair condition a header record) (testPair condition b header record) := by
  unfold testPair
  split
  · exact .pure _
  · exact (hc _ rfl _ _ h record).bind fun v => .pure _

/-- Matchers that put records together alike and whose tests agree. -/
structure Matcher.Same (I : Scope → Prop) (m n : Matcher) : Prop where
  pair : m.pair = n.pair
  others : m.others = n.others
  padding : m.padding = n.padding
  test : ∀ r, Eval.Same I (m.test r) (n.test r)

namespace Matcher

variable {m n : Matcher}

theorem matchRecord_same (h : m.Same I n) (driving : Record) :
    Eval.Same I (m.matchRecord driving) (n.matchRecord driving) := by
  unfold matchRecord recordsFor
  rw [h.pair, h.others, h.padding]
  exact (Eval.Same.mapM fun other _ => h.test _).bind fun flags => .pure _

theorem matchChunk_same (h : m.Same I n) (driving : List Record) :
    Eval.Same I (m.matchChunk driving) (n.matchChunk driving) := by
  unfold matchChunk
  rw [h.others]
  exact (Eval.Same.mapM fun r _ => matchRecord_same h r).bind fun results => .pure _

theorem matchChunks_same (h : m.Same I n) (driving : List Record) (ranges : List (Nat × Nat)) :
    Eval.Same I (m.matchChunks driving ranges) (n.matchChunks driving ranges) := by
  unfold matchChunks
  rw [h.others]
  exact (Eval.Same.mapM fun range _ => matchChunk_same h _).bind fun results => .pure _

end Matcher

theorem matcherOf_same (kind : JoinKind) (left right : View) {test test' : Record → Eval Bool}
    (h : ∀ r, Eval.Same I (test r) (test' r)) :
    (matcherOf kind left right test).Same I (matcherOf kind left right test') := by
  cases kind <;> exact ⟨rfl, rfl, rfl, h⟩

theorem matchJoin_same (A : Env.Agreement I P R) (kind : JoinKind) (left right : View)
    {condition : Option JoinCondition}
    (hc : ∀ c ∈ condition, c.AgreesOn I R (left.header.append right.header)) {a b : Env}
    (h : R a b) :
    Eval.Same I (matchJoin kind left right condition a)
      (matchJoin kind left right condition b) := by
  unfold matchJoin joinInChunks
  rw [A.settings h]
  have tests := matcherOf_same kind left right (testPair_same hc h)
  exact (Matcher.matchChunks_same tests _ _).bind fun result => .pure _

/-! ## Columns in common -/

/-- Related environments answer qualified names alike. -/
def Env.QualifiedAlike (R : Env → Env → Prop) : Prop :=
  ∀ a b, R a b → ∀ table name, a.column (some table) name = b.column (some table) name

/-- No column merges others. -/
def Header.Unmerged (h : Header) : Prop :=
  ∀ c ∈ h.columns, c.joined = false

/-- A header that has a column answers its qualified name, unless the column merges others. -/
theorem Header.find?_reference {h : Header} {c : Column} (hc : c ∈ h.columns)
    (unmerged : c.joined = false) : h.find? (some c.table) c.name ≠ .ok none := by
  obtain ⟨i, hi⟩ := List.mem_iff_getElem?.mp hc
  have meant : c.isMeantBy (some c.table) c.name = true := by
    simp [Column.isMeantBy, unmerged, Text.sameIgnoringCase]
  have found : i ∈ h.indicesWhere fun c' => c'.isMeantBy (some c.table) c.name :=
    mem_indicesWhere.mpr ⟨c, hi, meant⟩
  unfold find?
  intro hnone
  split at hnone
  · rename_i hempty
    rw [hempty] at found
    cases found
  · cases hnone
  · cases hnone

/-- The qualified name of a column is answered by its own record, or alike outside. -/
theorem column_reference_same (A : Env.Agreement I P R) {header : Header} {c : Column}
    (hc : c ∈ header.columns) (resolves : Env.QualifiedAlike R ∨ c.joined = false) {a b : Env}
    (h : R a b) (record : Record) :
    (a.bind { header, record }).column (some c.table) c.name
      = (b.bind { header, record }).column (some c.table) c.name := by
  rcases resolves with alike | unmerged
  · exact alike _ _ (A.bind h _) _ _
  · have answered := Header.find?_reference hc unmerged
    show Env.columnIn _ _ (_ :: a.bindings) = Env.columnIn _ _ (_ :: b.bindings)
    unfold Env.columnIn
    dsimp only
    cases hf : header.find? (some c.table) c.name with
    | error e => rfl
    | ok i? =>
      cases i? with
      | none => exact absurd hf answered
      | some i => rfl

/-- The columns of both sides of a join resolve, outside or because none of them merges others. -/
def JoinResolves (R : Env → Env → Prop) (left right : Header) : Prop :=
  Env.QualifiedAlike R ∨ (left.Unmerged ∧ right.Unmerged)

variable {left right : Header}

/-- Pairs of columns that there are. -/
def PairsOf (left right : Header) (pairs : List (Nat × Nat)) : Prop :=
  ∀ pair ∈ pairs, pair.1 < left.width ∧ pair.2 < right.width

theorem naturalPairs_pairsOf (left right : Header) :
    PairsOf left right (naturalPairs left right) := by
  intro pair hp
  obtain ⟨l, hl, hpair⟩ := List.mem_filterMap.mp hp
  obtain ⟨r, hr, rfl⟩ := Option.map_eq_some_iff.mp hpair
  exact ⟨Header.lt_of_mem_tableColumns hl,
    Header.lt_of_mem_tableColumns (List.mem_of_find?_eq_some hr)⟩

theorem usingPairs_pairsOf {names : List String} {pairs : List (Nat × Nat)}
    (h : usingPairs left right names = .ok pairs) : PairsOf left right pairs := by
  intro pair hp
  obtain ⟨name, -, hname⟩ := exists_of_mem_mapM h hp
  cases hl : left.find none name with
  | error e =>
    rw [hl] at hname
    cases hname
  | ok l =>
    cases hr : right.find none name with
    | error e =>
      rw [hl, hr] at hname
      cases hname
    | ok r =>
      rw [hl, hr] at hname
      cases hname
      exact ⟨Header.lt_of_find hl, Header.lt_of_find hr⟩

theorem Header.mem_of_lt (h : Header) {i : Nat} (hi : i < h.width) :
    h.columns[i]?.getD {} ∈ h.columns := by
  rw [List.getElem?_eq_getElem hi]
  exact List.getElem_mem _

theorem columnsEqual_same (A : Env.Agreement I P R) (resolves : JoinResolves R left right)
    {pair : Nat × Nat} (hp : pair.1 < left.width ∧ pair.2 < right.width) {a b : Env} (h : R a b)
    (record : Record) :
    let c := left.columns[pair.1]?.getD {}
    let d := right.columns[pair.2]?.getD {}
    Eval.Same I
      (columnsEqual c.reference d.reference (a.bind { header := left.append right, record }))
      (columnsEqual c.reference d.reference (b.bind { header := left.append right, record })) := by
  intro c d
  have hc : c ∈ left.columns := left.mem_of_lt hp.1
  have hd : d ∈ right.columns := right.mem_of_lt hp.2
  have inLeft : c ∈ (left.append right).columns := List.mem_append_left _ hc
  have inRight : d ∈ (left.append right).columns := List.mem_append_right _ hd
  have first := column_reference_same A inLeft
    (resolves.imp_right fun unmerged => unmerged.1 c hc) h record
  have second := column_reference_same A inRight
    (resolves.imp_right fun unmerged => unmerged.2 d hd) h record
  unfold columnsEqual Column.reference
  dsimp only
  rw [A.clock (A.bind h _), first, second]
  exact (Eval.Same.lift _).bind fun x => (Eval.Same.lift _).bind fun y => .pure _

theorem equalityCondition_agreesOn (A : Env.Agreement I P R)
    (resolves : JoinResolves R left right) {pairs : List (Nat × Nat)}
    (hp : PairsOf left right pairs) :
    ∀ c ∈ equalityCondition left right pairs, c.AgreesOn I R (left.append right) := by
  intro c hc a b h record
  cases pairs with
  | nil => cases hc
  | cons pair pairs =>
    cases hc
    have first := columnsEqual_same A resolves (hp pair (by simp)) h record
    refine Eval.Same.foldl (fun reference hm x y hxy => ?_) first
    obtain ⟨p, hp', rfl⟩ := List.mem_map.mp hm
    exact evalLogic_same .and hxy
      (columnsEqual_same A resolves (hp p (List.mem_cons_of_mem _ hp')) h record)

/-- Whether a join pairs columns by their names. -/
def JoinOn.byName : JoinOn → Bool
  | .natural | .columns _ => true
  | .always | .condition _ => false

/-- What a join needs of its condition, if it has one. -/
def JoinOn.Agrees (I : Scope → Prop) (R : Env → Env → Prop) (on : JoinOn) : Prop :=
  ∀ c, on = .condition c → c.Agrees I R

theorem JoinOn.condition?_agreesOn (A : Env.Agreement I P R) {on : JoinOn} (ho : on.Agrees I R)
    (resolves : on.byName → JoinResolves R left right) {pairs? : Option (List (Nat × Nat))}
    (hp : on.pairs? left right = .ok pairs?) :
    ∀ c ∈ on.condition? left right pairs?, c.AgreesOn I R (left.append right) := by
  cases on with
  | always =>
    cases hp
    intro c hc
    cases hc
  | natural =>
    cases hp
    exact equalityCondition_agreesOn A (resolves rfl) (naturalPairs_pairsOf left right)
  | condition d =>
    cases hp
    intro c hc
    cases hc
    exact fun a b h record => ho d rfl _ _ (A.bind h _)
  | columns names =>
    simp only [JoinOn.pairs?] at hp
    cases hu : usingPairs left right names with
    | error e => rw [hu] at hp; cases hp
    | ok pairs =>
      rw [hu] at hp
      cases hp
      exact equalityCondition_agreesOn A (resolves rfl) (usingPairs_pairsOf hu)

theorem joinViews_same (A : Env.Agreement I P R) (kind : JoinKind) {on : JoinOn}
    (ho : on.Agrees I R) {left right : View}
    (resolves : on.byName → JoinResolves R left.header right.header) {a b : Env} (h : R a b) :
    Eval.Same I (joinViews kind on left right a) (joinViews kind on left right b) := by
  refine Eval.Same.lift_bind fun pairs? hp => ?_
  have conditions := on.condition?_agreesOn A ho resolves hp
  cases pairs? with
  | none | some pairs =>
    dsimp only
    split
    · exact (Eval.Same.pure _).bind fun joined => .pure _
    · exact (matchJoin_same A kind left right conditions h).bind fun joined => .pure _

/-! ## Sources -/

theorem loadNamed_same (A : Env.Agreement I P R) (name : String) (aliasName : Option String)
    {a b : Env} (h : R a b) :
    Eval.Same I (loadNamed name aliasName a) (loadNamed name aliasName b) := by
  unfold loadNamed
  rw [A.inlineTable h, A.settings h]
  split
  · exact .pure _
  · refine Eval.Same.get.bind fun s => ?_
    split
    · exact .pure _
    · exact (Eval.Same.lift _).bind fun v => .pure _

theorem loadStdin_same (A : Env.Agreement I P R) (aliasName : Option String) {a b : Env}
    (h : R a b) : Eval.Same I (loadStdin aliasName a) (loadStdin aliasName b) := by
  unfold loadStdin
  rw [A.settings h]
  exact (Eval.Same.lift _).bind fun v => .pure _

theorem evalRows_same {rows : List (List Operand)} (hr : ∀ row ∈ rows, ∀ o ∈ row, o.Agrees I R)
    (width : Nat) {a b : Env} (h : R a b) :
    Eval.Same I (evalRows width a rows) (evalRows width b rows) := by
  induction rows with
  | nil => exact .pure _
  | cons row rows ih =>
    have rest : Eval.Same I
        (do
          let vs ← evalAll row a
          return vs :: (← evalRows width a rows))
        (do
          let vs ← evalAll row b
          return vs :: (← evalRows width b rows)) :=
      (evalAll_same (hr row (by simp)) h).bind fun vs =>
        (ih fun r hm => hr r (by simp [hm])).bind fun vss => .pure _
    unfold evalRows
    dsimp only
    split
    · exact (Eval.Same.throw _).bind fun _ => rest
    · exact rest

theorem loadValues_same {rows : List (List Operand)} (hr : ∀ row ∈ rows, ∀ o ∈ row, o.Agrees I R)
    (aliasName : Option String) (columns : List String) {a b : Env} (h : R a b) :
    Eval.Same I (loadValues rows aliasName columns a) (loadValues rows aliasName columns b) := by
  refine (evalRows_same hr _ h).bind fun values => ?_
  dsimp only
  split
  · exact (Eval.Same.throw _).bind fun _ => .pure _
  · exact .pure _

/-- A loader that gives the same view in related environments. -/
def LoaderAgrees (I : Scope → Prop) (R : Env → Env → Prop) (load : Env → Eval View) : Prop :=
  ∀ a b, R a b → Eval.Same I (load a) (load b)

theorem loadAll_same {loads : List (Env → Eval View)} (hl : ∀ load ∈ loads, LoaderAgrees I R load)
    {a b : Env} (h : R a b) : Eval.Same I (loadAll a loads) (loadAll b loads) := by
  cases loads with
  | nil => exact .pure _
  | cons first rest =>
    refine (hl first (by simp) a b h).bind fun v => .foldlM (fun load hm v => ?_) v
    exact (hl load (by simp [hm]) a b h).bind fun w => .pure _

/-! ## Merged columns -/

section Merged

variable {env : Env} {s t : Scope} {v left right : View}

theorem Header.unmerged_ofNames (table : String) (names : List String) :
    (Header.ofNames table names).Unmerged := by
  intro c hc
  obtain ⟨i, hi, rfl⟩ := List.mem_mapIdx.mp hc
  rfl

theorem Header.Unmerged.append {h k : Header} (hh : h.Unmerged) (hk : k.Unmerged) :
    (h.append k).Unmerged :=
  fun c hc => (List.mem_append.mp hc).elim (hh c) (hk c)

theorem renameView_unmerged (hv : v.header.Unmerged) (aliasName : Option String) :
    (renameView aliasName v).header.Unmerged := by
  unfold renameView
  split
  · exact Header.unmerged_ofNames _ _
  · exact hv

theorem loadNamed_unmerged {name : String} {aliasName : Option String}
    (h : Eval.exec (loadNamed name aliasName env) s = (.ok v, t)) : v.header.Unmerged := by
  unfold loadNamed at h
  split at h
  · cases h
    exact Header.unmerged_ofNames _ _
  · obtain ⟨u, _, -, h⟩ := Eval.exec_bind_eq_ok h
    split at h
    · cases h
      exact Header.unmerged_ofNames _ _
    · obtain ⟨w, _, hw, h⟩ := Eval.exec_bind_eq_ok h
      cases h
      refine renameView_unmerged ?_ aliasName
      have hload := (Prod.mk.inj hw).1
      unfold Catalog.load at hload
      split at hload
      · cases hload
        exact Header.unmerged_ofNames _ _
      · cases hload

theorem loadStdin_unmerged {aliasName : Option String}
    (h : Eval.exec (loadStdin aliasName env) s = (.ok v, t)) : v.header.Unmerged := by
  obtain ⟨w, _, hw, h⟩ := Eval.exec_bind_eq_ok h
  cases h
  refine renameView_unmerged ?_ aliasName
  have hload := (Prod.mk.inj hw).1
  unfold Catalog.loadStdin at hload
  split at hload
  · cases hload
    exact Header.unmerged_ofNames _ _
  · cases hload

theorem sourceOfResult_unmerged {aliasName : Option String} {columns : List String} {result : View}
    (h : sourceOfResult aliasName columns result = .ok v) : v.header.Unmerged := by
  unfold sourceOfResult at h
  dsimp only at h
  split at h
  · cases h
  · cases h
    exact Header.unmerged_ofNames _ _

theorem loadValues_unmerged {rows : List (List Operand)} {aliasName : Option String}
    {columns : List String} (h : Eval.exec (loadValues rows aliasName columns env) s = (.ok v, t)) :
    v.header.Unmerged := by
  obtain ⟨values, _, -, h⟩ := Eval.exec_bind_eq_ok h
  dsimp only at h
  split at h
  · cases h
  · cases h
    exact Header.unmerged_ofNames _ _

theorem joinViews_unmerged {kind : JoinKind} {on : JoinOn} (hon : on.byName = false)
    (hl : left.header.Unmerged) (hr : right.header.Unmerged)
    (h : Eval.exec (joinViews kind on left right env) s = (.ok v, t)) : v.header.Unmerged := by
  obtain ⟨pairs?, _, hp, h⟩ := Eval.exec_bind_eq_ok h
  have unpaired : pairs? = none := by
    have hp := (Prod.mk.inj hp).1
    cases on with
    | always | condition c =>
      cases hp
      rfl
    | natural | columns names => cases hon
  subst unpaired
  -- without pairs the columns of the two sides stand side by side
  have appended : v.header = left.header.append right.header := by
    dsimp only at h
    split at h
    · cases h
      rfl
    · obtain ⟨joined, _, hj, h⟩ := Eval.exec_bind_eq_ok h
      obtain ⟨result, _, -, hj⟩ := Eval.exec_bind_eq_ok hj
      cases hj
      cases h
      rfl
  rw [appended]
  exact hl.append hr

theorem JoinMatch.byName_meaning (m : JoinMatch) : m.meaning.byName = m.byName := by
  cases m <;> rfl

/-- Only joins by names merge columns. -/
theorem Source.load_unmerged (source : Source) (hs : source.merges = false) {s t : Scope}
    {v : View} (h : Eval.exec (source.load env) s = (.ok v, t)) : v.header.Unmerged := by
  match source with
  | .named name aliasName => exact loadNamed_unmerged h
  | .dual aliasName =>
    cases h
    exact fun c hc => (List.mem_singleton.mp hc).symm ▸ rfl
  | .stdin aliasName => exact loadStdin_unmerged h
  | .subquery q aliasName columns =>
    obtain ⟨result, _, -, h⟩ := Eval.exec_bind_eq_ok h
    exact sourceOfResult_unmerged (Prod.mk.inj h).1
  | .values rows aliasName columns => exact loadValues_unmerged h
  | .join kind left right m =>
    rw [Source.merges, Bool.or_eq_false_iff, Bool.or_eq_false_iff] at hs
    obtain ⟨⟨hm, hleft⟩, hright⟩ := hs
    obtain ⟨a, _, ha, h⟩ := Eval.exec_bind_eq_ok h
    obtain ⟨b, _, hb, h⟩ := Eval.exec_bind_eq_ok h
    exact joinViews_unmerged (m.byName_meaning.trans hm) (left.load_unmerged hleft ha)
      (right.load_unmerged hright hb) h
termination_by structural source

end Merged

/-! ## Inline tables -/

/-- A union whose two sides give the same in related environments. -/
structure UnionParts.Agrees (I : Scope → Prop) (R : Env → Env → Prop) (parts : UnionParts) :
    Prop where
  anchor : LoaderAgrees I R parts.anchor
  runStep : LoaderAgrees I R parts.runStep

theorem recursiveRounds_same (A : Env.Agreement I P R) (name : String) (header : Header)
    {parts : UnionParts} (hp : parts.Agrees I R) {a b : Env} (h : R a b) (rounds : Nat)
    (seen : List String) (working : List Record) :
    Eval.Same I (recursiveRounds name header parts a rounds seen working)
      (recursiveRounds name header parts b rounds seen working) := by
  induction rounds generalizing seen working with
  | zero => exact .throw _
  | succ rounds ih =>
    unfold recursiveRounds
    dsimp only
    rw [A.clock h]
    split
    · exact .pure _
    · refine (hp.runStep _ _ (A.withRecursive h _)).bind fun next => ?_
      split
      · exact .throw _
      · exact (ih _ _).bind fun rest => .pure _

theorem recursiveTable_same (A : Env.Agreement I P R) (name : String) (columns : List String)
    {parts : UnionParts} (hp : parts.Agrees I R) {a b : Env} (h : R a b) :
    Eval.Same I (recursiveTable name columns parts a) (recursiveTable name columns parts b) := by
  unfold recursiveTable
  rw [A.clock h, A.settings h]
  refine (hp.anchor a b h).bind fun anchor => (Eval.Same.lift _).bind fun first => ?_
  exact (recursiveRounds_same A name _ hp h _ _ _).bind fun added => .pure _

theorem inlineTable_same (A : Env.Agreement I P R) (recursive : Bool) (name : String)
    (columns : List String) {parts? : Option UnionParts} (hp : ∀ parts ∈ parts?, parts.Agrees I R)
    {run : Env → Eval View} (hr : LoaderAgrees I R run) {a b : Env} (h : R a b) :
    Eval.Same I (inlineTable recursive name columns parts? run a)
      (inlineTable recursive name columns parts? run b) := by
  have plain : Eval.Same I (do inlineView name columns (← run a))
      (do inlineView name columns (← run b)) :=
    (hr a b h).bind fun v => .lift _
  unfold inlineTable
  split
  · split
    · exact recursiveTable_same A name columns (hp _ rfl) h
    · exact plain
  · exact plain

end TableQuery
