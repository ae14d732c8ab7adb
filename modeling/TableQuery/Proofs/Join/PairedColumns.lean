import TableQuery.Proofs.Join.Relational
import TableQuery.Proofs.Table.Lookup

/-!
# Columns that a join pairs

`NATURAL` and `USING` pair columns by their indices, but the condition of the join refers to them by
their qualified names. The names mean the paired columns only if no other column has them and
neither column merges others: a merged column is never reached by a qualified name, so a second
`USING` with the same column cannot be evaluated.
-/

namespace TableQuery

open Eval Text

/-! ## References -/

namespace Header

variable {h : Header} {table : Option String} {name : String} {i j : Nat} {c : Column}

theorem nodup_indicesWhere (h : Header) (p : Column → Bool) : (h.indicesWhere p).Nodup := by
  rw [indicesWhere_eq_filter]
  exact List.nodup_range.filter _

theorem find?_eq_some_iff : h.find? table name = .ok (some i) ↔
    h.indicesWhere (fun c => c.isMeantBy table name) = [i] := by
  unfold find?
  generalize h.indicesWhere (fun c => c.isMeantBy table name) = indices
  rcases indices with _ | ⟨j, _ | ⟨k, rest⟩⟩ <;> simp

/-- A reference finds a column if it means this one and no other. -/
theorem find?_eq_some_iff_meant : h.find? table name = .ok (some i) ↔
    ∀ j, (∃ c, h.columns[j]? = some c ∧ c.isMeantBy table name = true) ↔ j = i := by
  rw [find?_eq_some_iff]
  constructor
  · intro single j
    rw [← mem_indicesWhere (p := fun c => c.isMeantBy table name), single, List.mem_singleton]
  · intro meant
    have perm : (h.indicesWhere fun c => c.isMeantBy table name).Perm [i] := by
      refine (List.perm_ext_iff_of_nodup (h.nodup_indicesWhere _) (by simp)).mpr fun j => ?_
      rw [mem_indicesWhere, meant, List.mem_singleton]
    exact List.perm_singleton.mp perm

theorem find?_eq_none (unknown : ∀ c ∈ h.columns, c.isMeantBy table name = false) :
    h.find? table name = .ok none := by
  have nothing : h.indicesWhere (fun c => c.isMeantBy table name) = [] := by
    refine List.eq_nil_iff_forall_not_mem.mpr fun i hi => ?_
    obtain ⟨c, hc, meant⟩ := mem_indicesWhere.mp hi
    rw [unknown c (List.mem_of_getElem? hc)] at meant
    cases meant
  rw [find?, nothing]

theorem find_eq_ok_iff : h.find table name = .ok i ↔ h.find? table name = .ok (some i) := by
  unfold find
  cases h.find? table name with
  | error e => exact ⟨nofun, nofun⟩
  | ok i? =>
    cases i? with
    | none => exact ⟨nofun, nofun⟩
    | some k =>
      constructor
      · rintro ⟨⟩
        rfl
      · rintro ⟨⟩
        rfl

/-- The column at an index merges none, and no other column that merges none has its qualified name.
-/
structure Distinct (h : Header) (i : Nat) (c : Column) : Prop where
  unmerged : c.joined = false
  alone : ∀ (j : Nat) (d : Column), h.columns[j]? = some d → d.joined = false →
    sameIgnoringCase d.table c.table = true → sameIgnoringCase d.name c.name = true → j = i

theorem isMeantBy_reference {d : Column} : d.isMeantBy c.reference.1 c.reference.2 = true ↔
    d.joined = false ∧ sameIgnoringCase d.table c.table = true ∧
      sameIgnoringCase d.name c.name = true := by
  unfold Column.reference Column.isMeantBy
  rw [Bool.and_eq_true, Bool.and_eq_true, Bool.not_eq_true', and_assoc]

/-- The qualified name of a column finds it exactly if it is distinct. -/
theorem find?_reference_iff (hi : h.columns[i]? = some c) :
    h.find? c.reference.1 c.reference.2 = .ok (some i) ↔ h.Distinct i c := by
  rw [find?_eq_some_iff_meant]
  constructor
  · intro meant
    obtain ⟨d, hd, itself⟩ := (meant i).mpr rfl
    cases hi.symm.trans hd
    exact ⟨(isMeantBy_reference.mp itself).1, fun j d hd unmerged table name =>
      (meant j).mp ⟨d, hd, isMeantBy_reference.mpr ⟨unmerged, table, name⟩⟩⟩
  · intro distinct j
    constructor
    · rintro ⟨d, hd, meant⟩
      obtain ⟨unmerged, table, name⟩ := isMeantBy_reference.mp meant
      exact distinct.alone j d hd unmerged table name
    · rintro rfl
      exact ⟨c, hi, isMeantBy_reference.mpr
        ⟨distinct.unmerged, by simp [sameIgnoringCase], by simp [sameIgnoringCase]⟩⟩

end Header

/-! ## Conditions that compare the paired columns -/

variable {left right : View} {env : Env} {s t : Scope} {on : JoinOn} {kind : JoinKind}
  {pairs : List (Nat × Nat)}

/-- Both columns of a pair are distinct in the header of the join. -/
def PairDistinct (left right : Header) (pair : Nat × Nat) : Prop :=
  (left.append right).Distinct pair.1 (left.columns[pair.1]?.getD {}) ∧
    (left.append right).Distinct (left.width + pair.2) (right.columns[pair.2]?.getD {})

/-- The qualified names of the columns of a pair find these. -/
def PairFound (left right : Header) (pair : Nat × Nat) : Prop :=
  let a := (left.columns[pair.1]?.getD {}).reference
  let b := (right.columns[pair.2]?.getD {}).reference
  (left.append right).find? a.1 a.2 = .ok (some pair.1) ∧
    (left.append right).find? b.1 b.2 = .ok (some (left.width + pair.2))

/-- Whether the columns of all pairs are equal in a record of the join. -/
def pairsTruth (clock : Calendar.Clock) (leftWidth : Nat) (pairs : List (Nat × Nat)) (r : Record) :
    Truth :=
  Truth.all (pairs.map fun pair =>
    (r.value pair.1).test clock .equal (r.value (leftWidth + pair.2)))

theorem usingPairs_of_pairs? {left right : Header} {names : List String}
    (hp : (JoinOn.columns names).pairs? left right = .ok (some pairs)) :
    usingPairs left right names = .ok pairs := by
  rw [JoinOn.pairs?] at hp
  cases hu : usingPairs left right names with
  | error e =>
    rw [hu] at hp
    cases hp
  | ok found =>
    rw [hu] at hp
    cases hp
    rfl

theorem JoinOn.pairs?_pairsOf {left right : Header}
    (hp : on.pairs? left right = .ok (some pairs)) : PairsOf left right pairs := by
  cases on with
  | always | condition c => cases hp
  | natural =>
    cases hp
    exact naturalPairs_pairsOf left right
  | columns names => exact usingPairs_pairsOf (usingPairs_of_pairs? hp)

theorem pairFound_iff {left right : Header} {pair : Nat × Nat}
    (hp : pair.1 < left.width ∧ pair.2 < right.width) :
    PairFound left right pair ↔ PairDistinct left right pair := by
  have first : (left.append right).columns[pair.1]? = some (left.columns[pair.1]?.getD {}) := by
    rw [Header.append, List.getElem?_append_left hp.1, List.getElem?_eq_getElem hp.1]
    rfl
  have second : (left.append right).columns[left.width + pair.2]? =
      some (right.columns[pair.2]?.getD {}) := by
    show (left.columns ++ right.columns)[left.columns.length + pair.2]? = _
    rw [List.getElem?_append_right (Nat.le_add_right ..), Nat.add_sub_cancel_left,
      List.getElem?_eq_getElem hp.2]
    rfl
  exact and_congr (Header.find?_reference_iff first) (Header.find?_reference_iff second)

theorem column_bind {header : Header} {record : Record} {table : Option String} {name : String}
    {i : Nat} (found : header.find? table name = .ok (some i)) :
    (env.bind { header, record }).column table name = .ok (record.value i) := by
  show Env.columnIn table name (_ :: env.bindings) = _
  unfold Env.columnIn
  dsimp only
  rw [found]
  rfl

/-- A reference has the value of the column that it finds. -/
theorem exec_column {header : Header} {record : Record} {table : Option String} {name : String}
    {i : Nat} (found : header.find? table name = .ok (some i)) (s : Scope) :
    exec ((Expr.column table name).eval (env.bind { header, record })) s =
      (.ok (record.value i), s) := by
  rw [Expr.eval]
  dsimp only [Env.known?]
  rw [column_bind found]
  rfl

/-- The equality of a pair compares the columns that its names find. -/
theorem exec_columnsEqual {header : Header} {record : Record} {a b : Option String × String}
    {i j : Nat} (ha : header.find? a.1 a.2 = .ok (some i))
    (hb : header.find? b.1 b.2 = .ok (some j)) :
    exec (columnsEqual a b (env.bind { header, record })) s =
      (.ok (.truth ((record.value i).test env.clock .equal (record.value j))), s) := by
  rw [columnsEqual, column_bind ha, column_bind hb]
  rfl

theorem exec_evalLogic_and {x y : Eval Value} {p q : Truth} (hx : exec x s = (.ok (.truth p), s))
    (hy : exec y s = (.ok (.truth q), s)) :
    exec (evalLogic .and x y) s = (.ok (.truth (p.and q)), s) := by
  rw [evalLogic, exec_bind_ok hx]
  cases p with
  | no => rfl
  | unknown | yes =>
    show exec (y >>= _) s = _
    rw [exec_bind_ok hy]
    rfl

theorem Truth.and_assoc (p q r : Truth) : (p.and q).and r = p.and (q.and r) := by
  cases p <;> cases q <;> cases r <;> rfl

/-- A chain of conjunctions. -/
theorem exec_foldl_and {α : Type} {x : Eval Value} {f : α → Eval Value} {truth : α → Truth}
    {p : Truth} (hx : exec x s = (.ok (.truth p), s)) {items : List α}
    (h : ∀ a ∈ items, exec (f a) s = (.ok (.truth (truth a)), s)) :
    exec (items.foldl (fun before a => evalLogic .and before (f a)) x) s =
      (.ok (.truth (p.and (Truth.all (items.map truth)))), s) := by
  induction items generalizing x p with
  | nil =>
    rw [List.foldl_nil, hx]
    cases p <;> rfl
  | cons a items ih =>
    rw [List.foldl_cons, List.map_cons, Truth.all, List.foldr_cons, ← Truth.and_assoc]
    exact ih (exec_evalLogic_and hx (h a (List.mem_cons_self ..)))
      fun b hb => h b (List.mem_cons_of_mem a hb)

/-- If the names find the paired columns, the condition compares these. -/
theorem equalityCondition_decides
    (found : ∀ pair ∈ pairs, PairFound left.header right.header pair) :
    Decides (equalityCondition left.header right.header pairs) env left right s
      (pairsTruth env.clock left.header.width pairs) := by
  intro l _ r _
  cases pairs with
  | nil => rfl
  | cons pair pairs =>
    have equal : ∀ p ∈ pair :: pairs,
        exec (columnsEqual (left.header.columns[p.1]?.getD {}).reference
          (right.header.columns[p.2]?.getD {}).reference (env.bind
            { header := left.header.append right.header, record := l.append r })) s =
          (.ok (.truth (((l.append r).value p.1).test env.clock .equal
            ((l.append r).value (left.header.width + p.2)))), s) :=
      fun p hp => exec_columnsEqual (found p hp).1 (found p hp).2
    have all := exec_foldl_and (equal pair (List.mem_cons_self ..))
      fun p hp => equal p (List.mem_cons_of_mem pair hp)
    refine ⟨.truth (pairsTruth env.clock left.header.width (pair :: pairs) (l.append r)), rfl, ?_⟩
    show exec ((pairs.map _).foldl _ _) s = _
    rw [List.foldl_map]
    exact all

/-- A join by name whose pairs are found compares these, and merges them. -/
theorem joinViews_compares (hp : on.pairs? left.header right.header = .ok (some pairs))
    (found : ∀ pair ∈ pairs, PairFound left.header right.header pair) :
    exec (joinViews kind on left right env) s =
      (.ok (View.mergePairs
        { header := left.header.append right.header
          records := relationalJoin (pairsTruth env.clock left.header.width pairs)
            left.header.width right.header.width left.records right.records kind }
        (pairs.map fun (l, r) => (l, r + left.header.width)) (kind == .right)), s) := by
  have paired : exec (liftM (on.pairs? left.header right.header) : Eval _) s =
      (.ok (some pairs), s) := by rw [exec_lift, hp]
  rw [joinViews, exec_bind_ok paired]
  exact exec_crossOrMatch (equalityCondition_decides found) _

/-! ## Merged columns -/

theorem usingPairs_single {left right : Header} {name : String}
    (h : usingPairs left right [name] = .ok pairs) :
    ∃ l r, left.find none name = .ok l ∧ right.find none name = .ok r ∧ pairs = [(l, r)] := by
  cases mapM_eq_ok_iff.mp h with
  | cons first rest =>
    cases rest
    cases hl : left.find none name with
    | error e =>
      rw [hl] at first
      cases first
    | ok l =>
      cases hr : right.find none name with
      | error e =>
        rw [hl, hr] at first
        cases first
      | ok r =>
        rw [hl, hr] at first
        cases first
        exact ⟨l, r, rfl, rfl, rfl⟩

/-- The columns of tables that have names. -/
def Header.Named (h : Header) : Prop :=
  ∀ c ∈ h.columns, c.joined = false ∧ c.table ≠ ""

theorem Header.Named.append {h k : Header} (hh : h.Named) (hk : k.Named) : (h.append k).Named :=
  fun c hc => (List.mem_append.mp hc).elim (hh c) (hk c)

theorem matchJoin_header {condition : Option JoinCondition} {v : View}
    (h : exec (matchJoin kind left right condition env) s = (.ok v, t)) :
    v.header = left.header.append right.header := by
  obtain ⟨result, _, -, h⟩ := exec_bind_eq_ok h
  cases h
  rfl

/-- A join by one name merges the columns that both sides have by this name. -/
theorem joinViews_using_single {a b x : View} {name : String}
    (h : exec (joinViews kind (.columns [name]) a b env) s = (.ok x, t)) :
    ∃ (l r : Nat) (v : View), a.header.find none name = .ok l ∧ b.header.find none name = .ok r ∧
      v.header = a.header.append b.header ∧
      x = v.mergePairs [(l, r + a.header.width)] (kind == .right) := by
  obtain ⟨pairs?, _, hp, h⟩ := exec_bind_eq_ok h
  have hp : (usingPairs a.header b.header [name]).map some = .ok pairs? := (Prod.mk.inj hp).1
  cases hu : usingPairs a.header b.header [name] with
  | error e =>
    rw [hu] at hp
    cases hp
  | ok pairs =>
    rw [hu] at hp
    cases hp
    obtain ⟨l, r, hl, hr, rfl⟩ := usingPairs_single hu
    refine ⟨l, r, ?_⟩
    dsimp only at h
    split at h
    · obtain ⟨v, _, hv, h⟩ := exec_bind_eq_ok h
      cases hv
      cases h
      exact ⟨_, hl, hr, rfl, rfl⟩
    · obtain ⟨v, _, hv, h⟩ := exec_bind_eq_ok h
      cases h
      exact ⟨v, hl, hr, matchJoin_header hv, rfl⟩

section Merged

variable {v : View} {h k : Header} {l r : Nat} {name : String} {rightFirst : Bool}

/-- The columns behind the merged one are those of both sides, of which the paired ones are hidden.
-/
theorem mergePairs_columns {i : Nat} {d : Column}
    (hd : (v.mergePairs [(l, r)] rightFirst).header.columns[i + 1]? = some d) :
    ∃ c, v.header.columns[i]? = some c ∧
      d = if [l, r].contains i then { c with hidden := true } else c := by
  have hd : (v.header.columns.mapIdx fun i c =>
      if [l, r].contains i then { c with hidden := true } else c)[i]? = some d := hd
  rw [List.getElem?_mapIdx] at hd
  obtain ⟨c, hc, rfl⟩ := Option.map_eq_some_iff.mp hd
  exact ⟨c, hc, rfl⟩

/-- The name that was merged means the merged column only, as the paired columns are hidden. -/
theorem find_mergePairs (hv : v.header = h.append k) (hl : h.find none name = .ok l)
    (hr : k.find none name = .ok r) {i : Nat}
    (found : (v.mergePairs [(l, r + h.width)] rightFirst).header.find none name = .ok i) :
    i = 0 := by
  rw [Header.find_eq_ok_iff, Header.find?_eq_some_iff_meant] at hl hr found
  obtain ⟨d, hd, meant⟩ := (found i).mpr rfl
  cases i with
  | zero => rfl
  | succ i =>
    obtain ⟨c, hc, rfl⟩ := mergePairs_columns hd
    split at meant
    · cases meant
    · rename_i visible
      refine absurd ?_ visible
      rw [hv] at hc
      by_cases inLeft : i < h.width
      · rw [Header.append, List.getElem?_append_left inLeft] at hc
        simp [(hl i).mp ⟨c, hc, meant⟩]
      · have after : h.width ≤ i := Nat.not_lt.mp inLeft
        rw [Header.append, List.getElem?_append_right after] at hc
        have at_right : i - h.width = r := (hr _).mp ⟨c, hc, meant⟩
        have at_merged : i = r + h.width := by omega
        simp [at_merged]

theorem sameIgnoringCase_empty {s : String} (hs : s ≠ "") : sameIgnoringCase s "" = false := by
  rw [← Bool.not_eq_true, sameIgnoringCase, beq_iff_eq]
  simpa using hs

/-- No column has the qualified name of the merged one, which is not reached by it. -/
theorem merged_unknown {g : Header} (hv : v.header.Named) (hg : g.Named) (name : String) :
    ((v.mergePairs [(l, r)] rightFirst).header.append g).find? (some "") name = .ok none := by
  have unknown : ∀ c : Column, c.table ≠ "" → c.isMeantBy (some "") name = false := by
    intro c table
    simp [Column.isMeantBy, sameIgnoringCase_empty table]
  refine Header.find?_eq_none fun d hd => ?_
  obtain hd | hd := List.mem_append.mp hd
  · obtain ⟨i, hi⟩ := List.mem_iff_getElem?.mp hd
    cases i with
    | zero =>
      cases hi
      rfl
    | succ i =>
      obtain ⟨c, hc, rfl⟩ := mergePairs_columns hi
      have table := (hv c (List.mem_of_getElem? hc)).2
      refine unknown _ ?_
      split
      · exact table
      · exact table
  · exact unknown d (hg d hd).2

end Merged

/-! ## Conditions that fail -/

/-- A test that always fails makes matching fail, if there is a pair to test. -/
theorem Matcher.matchChunks_error {m : Matcher} {driving : List Record} {e : QueryError}
    (hd : driving ≠ []) (ho : m.others ≠ []) (fails : ∀ r, exec (m.test r) s = (.error e, s))
    (chunks : Nat) :
    exec (m.matchChunks driving (chunkRanges driving.length chunks)) s = (.error e, s) := by
  have stays : m.Stays s := fun r => by rw [fails r]
  have each : ∀ d, m.resultFor s d = .error e := by
    intro d
    obtain ⟨o, os, others⟩ := List.exists_cons_of_ne_nil ho
    rw [resultFor, matchRecord, others, List.mapM_cons, bind_assoc, exec_bind, fails]
    rfl
  have whole : m.resultOf s driving = .error e := by
    obtain ⟨d, ds, rfl⟩ := List.exists_cons_of_ne_nil hd
    rw [resultOf_eq stays, List.mapM_cons, each]
    rfl
  rw [exec_matchChunks stays, ← resultOf_flatten stays, ← List.flatMap_def,
    flatMap_elementsIn_chunkRanges, whole]

/-- A join fails if its condition fails alike for all records. -/
theorem exec_crossOrMatch_error {c : JoinCondition} {e : QueryError} (hl : left.records ≠ [])
    (hr : right.records ≠ []) (fails : ∀ record, exec (c.eval (env.bind
      { header := left.header.append right.header, record })) s = (.error e, s))
    (f : View → Eval View) :
    exec (if kind == .cross && (some c).isNone then do f (← pure (left.cross right))
        else do f (← matchJoin kind left right (some c) env)) s = (.error e, s) := by
  have tests : ∀ r, exec (testPair (some c) env (left.header.append right.header) r) s =
      (.error e, s) := by
    intro r
    rw [testPair, exec_bind, fails]
    rfl
  have error : exec ((matcherOf kind left right (testPair (some c) env
      (left.header.append right.header))).matchChunks (drivingRecords kind left right)
      (chunkRanges (drivingRecords kind left right).length (chunkCount env.settings.cpu
        (drivingRecords kind left right).length ((some c).any JoinCondition.assigns)))) s =
      (.error e, s) := by
    cases kind with
    | right => exact Matcher.matchChunks_error hr hl tests _
    | _ => exact Matcher.matchChunks_error hl hr tests _
  rw [Option.isNone_some, Bool.and_false, if_neg Bool.false_ne_true, exec_bind, matchJoin,
    joinInChunks, exec_bind, error]
  rfl

/-- After a join by a name, a second join by this name fails if there are records. -/
theorem using_twice {a b c x : View} {name : String} {kind' : JoinKind} (ha : a.header.Named)
    (hb : b.header.Named) (hc : c.header.Named) (top : env.bindings = [])
    (first : exec (joinViews kind (.columns [name]) a b env) s = (.ok x, t))
    (accepted : usingPairs x.header c.header [name] = .ok pairs) :
    ∃ l, a.header.find none name = .ok l ∧
      (x.records ≠ [] → c.records ≠ [] →
        exec (joinViews kind' (.columns [name]) x c env) t =
          (.error (.noSuchField ("." ++ (a.header.columns[l]?.getD {}).name)), t)) ∧
      (x.records = [] ∨ c.records = [] →
        ∃ w, exec (joinViews kind' (.columns [name]) x c env) t = (.ok w, t)) := by
  obtain ⟨l, r, v, hl, hr, header, rfl⟩ := joinViews_using_single first
  obtain ⟨i, j, hi, hj, rfl⟩ := usingPairs_single accepted
  obtain rfl := find_mergePairs header hl hr hi
  have paired : exec (liftM ((JoinOn.columns [name]).pairs? (v.mergePairs [(l, r + a.header.width)]
      (kind == .right)).header c.header) : Eval _) t = (.ok (some [(0, j)]), t) := by
    rw [exec_lift, JoinOn.pairs?, accepted]
    rfl
  refine ⟨l, hl, fun hx hcs => ?_, fun empty => ?_⟩
  · have inLeft : l < a.header.width := Header.lt_of_find hl
    have merged : v.header.columns[l]? = a.header.columns[l]? := by
      rw [header, Header.append, List.getElem?_append_left inLeft]
    rw [joinViews, exec_bind_ok paired]
    refine exec_crossOrMatch_error hx hcs (fun record => ?_) _
    have unknown : ((v.mergePairs [(l, r + a.header.width)] (kind == .right)).header.append
        c.header).find? (some "") (v.header.columns[l]?.getD {}).name = .ok none :=
      merged_unknown (header ▸ ha.append hb) hc _
    have column : (env.bind { header := (v.mergePairs [(l, r + a.header.width)]
        (kind == .right)).header.append c.header, record }).column (some "")
        (v.header.columns[l]?.getD {}).name =
        .error (.noSuchField ("." ++ (a.header.columns[l]?.getD {}).name)) := by
      show Env.columnIn _ _ (_ :: env.bindings) = _
      rw [top, Env.columnIn]
      dsimp only
      rw [unknown, merged]
      simp [Env.columnIn, referenceText]
    show exec (columnsEqual (some "", (v.header.columns[l]?.getD {}).name) _ _) t = _
    rw [columnsEqual, column]
    rfl
  · have vacuous : Decides (equalityCondition (v.mergePairs [(l, r + a.header.width)]
        (kind == .right)).header c.header [(0, j)]) env (v.mergePairs [(l, r + a.header.width)]
        (kind == .right)) c t (fun _ => .yes) := by
      intro p hp q hq
      obtain empty | empty := empty
      · rw [empty] at hp
        cases hp
      · rw [empty] at hq
        cases hq
    rw [joinViews, exec_bind_ok paired]
    exact ⟨_, exec_crossOrMatch vacuous _⟩

/-! ## Joins by name -/

/-- The names in the condition of a join by name find the paired columns exactly if these are
distinct. Then the join compares them; but a second join by the name of a merged column finds no
column of that name, and fails as soon as there are records to compare. -/
theorem joins_by_name_compare_pairs (kind : JoinKind)
    (hp : on.pairs? left.header right.header = .ok (some pairs)) :
    (∀ pair ∈ pairs, PairFound left.header right.header pair ↔
      PairDistinct left.header right.header pair) ∧
    ((∀ pair ∈ pairs, PairDistinct left.header right.header pair) →
      exec (joinViews kind on left right env) s =
        (.ok (View.mergePairs
          { header := left.header.append right.header
            records := relationalJoin (pairsTruth env.clock left.header.width pairs)
              left.header.width right.header.width left.records right.records kind }
          (pairs.map fun (l, r) => (l, r + left.header.width)) (kind == .right)), s)) ∧
    ∀ (kind' : JoinKind) (a b : View) (name : String) (r : Scope),
      a.header.Named → b.header.Named → right.header.Named → env.bindings = [] →
      exec (joinViews kind' (.columns [name]) a b env) r = (.ok left, s) → on = .columns [name] →
      ∃ l, a.header.find none name = .ok l ∧
        (left.records ≠ [] → right.records ≠ [] → exec (joinViews kind on left right env) s =
          (.error (.noSuchField ("." ++ (a.header.columns[l]?.getD {}).name)), s)) ∧
        (left.records = [] ∨ right.records = [] →
          ∃ w, exec (joinViews kind on left right env) s = (.ok w, s)) := by
  have found_iff : ∀ pair ∈ pairs, PairFound left.header right.header pair ↔
      PairDistinct left.header right.header pair :=
    fun pair mem => pairFound_iff (JoinOn.pairs?_pairsOf hp pair mem)
  refine ⟨found_iff, fun distinct => ?_, ?_⟩
  · exact joinViews_compares hp fun pair mem => (found_iff pair mem).mpr (distinct pair mem)
  · rintro kind' a b name r ha hb hright top first rfl
    exact using_twice ha hb hright top first (usingPairs_of_pairs? hp)

/-- `a JOIN b USING (k)` compares the columns `k`, `a JOIN b USING (k) JOIN c USING (k)` fails. -/
theorem joins_by_name_chained :
    let table (name : String) : View := .ofRows (.ofNames name ["k"]) [[.integer 1]]
    ∃ x, exec (joinViews .inner (.columns ["k"]) (table "a") (table "b") {}) {} = (.ok x, {}) ∧
      x.records = [.ofValues [.integer 1, .integer 1, .integer 1]] ∧
      exec (joinViews .inner (.columns ["k"]) x (table "c") {}) {} =
        (.error (.noSuchField ".k"), {}) := by
  intro table
  have named : ∀ name : String, name ≠ "" → (table name).header.Named := by
    intro name nonempty c hc
    cases List.mem_singleton.mp hc
    exact ⟨rfl, nonempty⟩
  have paired : (JoinOn.columns ["k"]).pairs? (table "a").header (table "b").header =
      .ok (some [(0, 0)]) := rfl
  obtain ⟨found_iff, compares, -⟩ := joins_by_name_compare_pairs .inner paired
  have distinct : ∀ pair ∈ [(0, 0)], PairDistinct (table "a").header (table "b").header pair := by
    refine fun pair mem => (found_iff pair mem).mp ?_
    cases List.mem_singleton.mp mem
    exact ⟨by decide +kernel, by decide +kernel⟩
  let x : View := View.mergePairs
    { header := (table "a").header.append (table "b").header
      records := [.ofValues [.integer 1, .integer 1]] } [(0, 1)] false
  have first : exec (joinViews .inner (.columns ["k"]) (table "a") (table "b") {}) {} =
      (.ok x, {}) := (compares distinct).trans rfl
  have accepted : (JoinOn.columns ["k"]).pairs? x.header (table "c").header =
      .ok (some [(0, 0)]) := by decide +kernel
  obtain ⟨-, -, twice⟩ := joins_by_name_compare_pairs .inner accepted
  obtain ⟨l, hl, fails, -⟩ := twice .inner (table "a") (table "b") "k" {} (named "a" (by decide))
    (named "b" (by decide)) (named "c" (by decide)) rfl first rfl
  cases hl
  exact ⟨x, first, rfl, fails (by decide) (by decide)⟩

end TableQuery
