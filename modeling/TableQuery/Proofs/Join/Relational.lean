import TableQuery.Proofs.Evaluation.Conditions
import TableQuery.Proofs.Join.Chunks

/-!
# Joins as relations

The records of a join by its kind, as lists of pairs. What matching finds chunk by chunk is this
list, if the condition has a value for every pair and leaves the scope alone.
-/

namespace TableQuery

open Eval

/-! ## The relational joins -/

section Relational

variable (truth : Record → Truth) (leftWidth rightWidth : Nat) (ls rs : List Record)

/-- The pairs of a left record that satisfy the condition. -/
def pairsOfLeft (l : Record) : List Record :=
  (rs.map l.append).filter fun r => (truth r).holds

/-- The pairs of a right record that satisfy the condition. -/
def pairsOfRight (r : Record) : List Record :=
  (ls.map fun l => l.append r).filter fun r => (truth r).holds

def innerRecords : List Record :=
  ls.flatMap (pairsOfLeft truth rs)

/-- The pairs of each left record, or the record with NULLs. -/
def leftRecords : List Record :=
  ls.flatMap fun l =>
    match pairsOfLeft truth rs l with
    | [] => [l.append (.nulls rightWidth)]
    | found => found

/-- The pairs of each right record, or the record with NULLs. -/
def rightRecords : List Record :=
  rs.flatMap fun r =>
    match pairsOfRight truth ls r with
    | [] => [(Record.nulls leftWidth).append r]
    | found => found

/-- The right records that satisfy the condition with no left one. -/
def unpaired : List Record :=
  rs.filter fun r => !ls.any fun l => (truth (l.append r)).holds

/-- The records of a join. -/
def relationalJoin (kind : JoinKind) : List Record :=
  match kind with
  | .cross | .inner => innerRecords truth ls rs
  | .left => leftRecords truth rightWidth ls rs
  | .right => rightRecords truth leftWidth ls rs
  | .full =>
    leftRecords truth rightWidth ls rs ++
      (unpaired truth ls rs).map (Record.nulls leftWidth).append

end Relational

/-- The condition has the given truth for every pair of records, and leaves the scope alone. Without
a condition every pair satisfies it. -/
def Decides (condition : Option JoinCondition) (env : Env) (left right : View) (s : Scope)
    (truth : Record → Truth) : Prop :=
  ∀ l ∈ left.records, ∀ r ∈ right.records,
    match condition with
    | none => truth (l.append r) = .yes
    | some c => ∃ v, v.toTruth = truth (l.append r) ∧
        exec (c.eval (env.bind
          { header := left.header.append right.header, record := l.append r })) s = (.ok v, s)

/-! ## Matching with a condition that is decided -/

/-- The elements that pass, found by their flags. -/
theorem filter_zip_map {α : Type} (p : α → Bool) (q : α × Bool → Bool) (xs : List α) :
    ((xs.zip (xs.map p)).filter q).map Prod.fst = xs.filter fun x => q (x, p x) := by
  induction xs with
  | nil => rfl
  | cons x xs ih =>
    rw [List.map_cons, List.zip_cons_cons, List.filter_cons, List.filter_cons]
    split
    · rw [List.map_cons, ih]
    · exact ih

theorem MatchResult.orFlags_map {α : Type} (p q : α → Bool) (xs : List α) :
    orFlags (xs.map p) (xs.map q) = xs.map fun x => p x || q x := by
  induction xs with
  | nil => rfl
  | cons x xs ih => rw [List.map_cons, List.map_cons, orFlags, ih, List.map_cons]

/-- Each of the others is marked if a driving record matches it. -/
theorem MatchResult.marked_map {α β : Type} (others : List α) (p : α → Bool) (q : β → α → Bool)
    (records : β → List Record) (driving : List β) :
    marked (others.map p) (driving.map fun d => ⟨records d, others.map (q d)⟩) =
      others.map fun o => p o || driving.any fun d => q d o := by
  induction driving generalizing p with
  | nil => simp [marked]
  | cons d driving ih =>
    rw [List.map_cons, marked, List.foldl_cons, orFlags_map]
    refine (ih _).trans (List.map_congr_left fun o _ => ?_)
    rw [List.any_cons, Bool.or_assoc]

namespace Matcher

variable {m : Matcher} {s : Scope} {holds : Record → Bool} {driving : List Record}

/-- The tests of the matcher give the truth for every pair, and leave the scope alone. -/
def Decided (m : Matcher) (s : Scope) (driving : List Record) (holds : Record → Bool) : Prop :=
  ∀ d ∈ driving, ∀ o ∈ m.others, exec (m.test (m.pair d o)) s = (.ok (holds (m.pair d o)), s)

/-- What one driving record gives. -/
def found (m : Matcher) (holds : Record → Bool) (d : Record) : MatchResult :=
  let flags := m.others.map fun o => holds (m.pair d o)
  ⟨m.recordsFor d flags, flags⟩

theorem Decided.matchChunk (h : m.Decided s driving holds) :
    exec (m.matchChunk driving) s =
      (.ok (.concat m.others.length (driving.map (m.found holds))), s) := by
  have each : ∀ d ∈ driving, exec (m.matchRecord d) s = (.ok (m.found holds d), s) := by
    intro d hd
    rw [matchRecord, exec_bind_ok (exec_mapM_of_ok (h d hd))]
    rfl
  rw [Matcher.matchChunk, exec_bind_ok (exec_mapM_of_ok each)]
  rfl

theorem Decided.matchChunks (h : m.Decided s driving holds) (chunks : Nat) :
    exec (m.matchChunks driving (chunkRanges driving.length chunks)) s =
      (.ok (.concat m.others.length (driving.map (m.found holds))), s) := by
  let parts := (chunkRanges driving.length chunks).map fun range =>
    (elementsIn driving range).map (m.found holds)
  have each : ∀ range ∈ chunkRanges driving.length chunks,
      exec (m.matchChunk ((driving.drop range.1).take (range.2 - range.1))) s =
        (.ok (.concat m.others.length ((elementsIn driving range).map (m.found holds))), s) :=
    fun range _ => Decided.matchChunk fun d hd =>
      h d (List.mem_of_mem_drop (List.mem_of_mem_take hd))
  have covered : ∀ part ∈ parts, MatchResult.Covered m.others.length part := by
    intro part hpart r hr
    obtain ⟨range, -, rfl⟩ := List.mem_map.mp hpart
    obtain ⟨d, -, rfl⟩ := List.mem_map.mp hr
    exact Nat.le_of_eq (List.length_map _)
  have whole : parts.flatten = driving.map (m.found holds) := by
    rw [← List.flatMap_def, ← List.map_flatMap, flatMap_elementsIn_chunkRanges]
  have joined := MatchResult.concat_flatten m.others.length parts covered
  rw [whole, List.map_map] at joined
  rw [Matcher.matchChunks, exec_bind_ok (exec_mapM_of_ok each), ← joined]
  rfl

/-- The records of a driving record are its pairs, or the padding if there are none. -/
theorem records_found (m : Matcher) (holds : Record → Bool) (driving : List Record) :
    (MatchResult.concat m.others.length (driving.map (m.found holds))).records =
      driving.flatMap fun d =>
        match (m.others.map (m.pair d)).filter holds with
        | [] => (m.padding.map (m.pair d)).toList
        | found => found := by
  refine (List.flatMap_map ..).trans (List.flatMap_congr fun d _ => ?_)
  have passing := congrArg (List.map (m.pair d))
    (filter_zip_map (fun o => holds (m.pair d o)) Prod.snd m.others)
  rw [List.map_map] at passing
  rw [found, recordsFor, List.filter_map]
  dsimp only [Function.comp_def] at passing ⊢
  rw [passing]
  cases m.others.filter fun o => holds (m.pair d o) <;> rfl

/-- Which of the others any driving record matches. -/
theorem matched_found (m : Matcher) (holds : Record → Bool) (driving : List Record) :
    (MatchResult.concat m.others.length (driving.map (m.found holds))).matched =
      m.others.map fun o => driving.any fun d => holds (m.pair d o) := by
  have marked := MatchResult.marked_map m.others (fun _ => false)
    (fun d o => holds (m.pair d o)) (fun d => (m.found holds d).records) driving
  simp only [List.map_const', Bool.false_or] at marked
  exact marked

end Matcher

/-! ## Joins -/

variable {kind : JoinKind} {left right : View} {condition : Option JoinCondition} {env : Env}
  {s : Scope} {truth : Record → Truth}

theorem Decides.testPair (h : Decides condition env left right s truth) {l r : Record}
    (hl : l ∈ left.records) (hr : r ∈ right.records) :
    exec (testPair condition env (left.header.append right.header) (l.append r)) s =
      (.ok (truth (l.append r)).holds, s) := by
  have decided := h l hl r hr
  cases condition with
  | none =>
    dsimp only at decided
    rw [decided]
    rfl
  | some c =>
    obtain ⟨v, hv, run⟩ := decided
    rw [TableQuery.testPair, exec_bind_ok run, hv]
    rfl

theorem Decides.decided (h : Decides condition env left right s truth) :
    (matcherOf kind left right (TableQuery.testPair condition env
        (left.header.append right.header))).Decided s (drivingRecords kind left right)
      fun r => (truth r).holds := by
  cases kind with
  | right => exact fun r hr l hl => h.testPair hl hr
  | _ => exact fun l hl r hr => h.testPair hl hr

/-- What the driving records find is the relation. -/
theorem joinedRecords_found (kind : JoinKind) (left right : View) (test : Record → Eval Bool)
    (truth : Record → Truth) :
    let m := matcherOf kind left right test
    joinedRecords kind left right (.concat m.others.length
        ((drivingRecords kind left right).map (m.found fun r => (truth r).holds))) =
      relationalJoin truth left.header.width right.header.width left.records right.records kind := by
  cases kind with
  | cross | inner =>
    refine (Matcher.records_found ..).trans (List.flatMap_congr fun l _ => ?_)
    -- nothing stands for a record without pairs
    rw [pairsOfLeft]
    dsimp only [matcherOf]
    cases (right.records.map l.append).filter fun r => (truth r).holds <;> rfl
  | left | right => exact Matcher.records_found ..
  | full =>
    refine congrArg₂ (· ++ ·) (Matcher.records_found ..) ?_
    -- a right record is marked if any left record matches it
    have matched := Matcher.matched_found (matcherOf .full left right test)
      (fun r => (truth r).holds) left.records
    dsimp only [matcherOf, drivingRecords] at matched ⊢
    rw [matched]
    have unmarked := filter_zip_map (fun r => left.records.any fun l => (truth (l.append r)).holds)
      (fun x => !x.2) right.records
    rw [unpaired, ← unmarked, List.map_map]
    rfl

/-- A join gives the records of its relation, however its driving records are split. -/
theorem matchJoin_relational (h : Decides condition env left right s truth) :
    exec (matchJoin kind left right condition env) s =
      (.ok { header := left.header.append right.header
             records := relationalJoin truth left.header.width right.header.width left.records
               right.records kind }, s) := by
  rw [matchJoin, joinInChunks, exec_bind_ok (h.decided.matchChunks _), exec_pure, joinedView,
    joinedRecords_found]

/-! ## Sources side by side -/

/-- A comma between sources is the inner join in which every pair matches. -/
theorem cross_relational (left right : View) : left.cross right =
    { header := left.header.append right.header
      records := relationalJoin (fun _ => .yes) left.header.width right.header.width left.records
        right.records .cross } := by
  have all : ∀ l, pairsOfLeft (fun _ => .yes) right.records l = right.records.map l.append :=
    fun l => List.filter_eq_self.mpr fun _ _ => rfl
  rw [View.cross, relationalJoin, innerRecords, funext all]

/-- The condition of a join that pairs no columns by name. -/
def JoinOn.ofCondition : Option JoinCondition → JoinOn
  | none => .always
  | some c => .condition c

/-- A cross join without a condition is not matched, but has the records of the relation, too. -/
theorem exec_crossOrMatch (h : Decides condition env left right s truth) (f : View → Eval View) :
    exec (if kind == .cross && condition.isNone then do f (← pure (left.cross right))
        else do f (← matchJoin kind left right condition env)) s =
      exec (f { header := left.header.append right.header
                records := relationalJoin truth left.header.width right.header.width left.records
                  right.records kind }) s := by
  split
  · rename_i plain
    rw [Bool.and_eq_true, beq_iff_eq, Option.isNone_iff_eq_none] at plain
    obtain ⟨rfl, rfl⟩ := plain
    have same : innerRecords truth left.records right.records =
        innerRecords (fun _ => .yes) left.records right.records := by
      refine List.flatMap_congr fun l hl => List.filter_congr fun pair hpair => ?_
      obtain ⟨r, hr, rfl⟩ := List.mem_map.mp hpair
      rw [show truth (l.append r) = .yes from h l hl r hr]
    rw [pure_bind, cross_relational, relationalJoin, relationalJoin, same]
  · rw [exec_bind_ok (matchJoin_relational h)]

/-- Joined sources have the records of the relation. -/
theorem joinViews_relational (h : Decides condition env left right s truth) :
    exec (joinViews kind (.ofCondition condition) left right env) s =
      (.ok { header := left.header.append right.header
             records := relationalJoin truth left.header.width right.header.width left.records
               right.records kind }, s) := by
  have joined := @exec_crossOrMatch kind _ _ _ _ _ _ h pure
  cases condition with
  | none => exact joined
  | some c => exact joined

/-- The pairs of a cross join that a `WHERE` clause keeps. -/
theorem cross_keepWhere {o : Operand}
    (h : Decides (some (.ofOperand o)) env left right s truth) :
    exec ((left.cross right).keepWhere o env) s =
      (.ok { header := left.header.append right.header
             records := innerRecords truth left.records right.records }, s) := by
  have each : ∀ b ∈ (left.cross right).bindings,
      exec (o.holdsAt env b) s = (.ok (truth b.record).holds, s) := by
    intro b hb
    obtain ⟨pair, hpair, rfl⟩ := List.mem_map.mp hb
    obtain ⟨l, hl, hpair⟩ := List.mem_flatMap.mp hpair
    obtain ⟨r, hr, rfl⟩ := List.mem_map.mp hpair
    exact h.testPair hl hr
  have flags : (left.cross right).bindings.map (fun b => (truth b.record).holds) =
      (left.cross right).records.map fun r => (truth r).holds := by
    rw [View.bindings, List.map_map]
    rfl
  rw [View.exec_keepWhere (exec_mapM_of_ok each), flags, filter_zip_map]
  rw [View.cross, List.filter_flatMap]
  rfl

/-- Joins follow their relational definition, and sources side by side that a `WHERE` clause filters
are their inner join. -/
theorem joins_relational :
    (∀ (kind : JoinKind) (left right : View) (condition : Option JoinCondition) (env : Env)
        (s : Scope) (truth : Record → Truth), Decides condition env left right s truth →
      let joined : View :=
        { header := left.header.append right.header
          records := relationalJoin truth left.header.width right.header.width left.records
            right.records kind }
      exec (matchJoin kind left right condition env) s = (.ok joined, s) ∧
        exec (joinViews kind (.ofCondition condition) left right env) s = (.ok joined, s)) ∧
    ∀ (a b : Source) (c : Expr) (left right : View) (env : Env) (s t u : Scope)
        (truth : Record → Truth), exec (a.load env) s = (.ok left, t) →
      exec (b.load env) t = (.ok right, u) →
      Decides (some (.ofOperand ⟨c, fun env => c.eval env⟩)) env left right u truth →
      exec (do (← loadAll env (loaders [a, b])).keepWhere ⟨c, fun env => c.eval env⟩ env) s =
        exec ((Source.join .inner a b (.on c)).load env) s := by
  constructor
  · intro kind left right condition env s truth h
    exact ⟨matchJoin_relational h, joinViews_relational h⟩
  · intro a b c left right env s t u truth ha hb h
    have loaded : exec (loadAll env (loaders [a, b])) s = (.ok (left.cross right), u) := by
      rw [loaders, loaders, loaders, loadAll, exec_bind_ok ha, List.foldlM_cons,
        exec_bind_ok (exec_bind_ok hb _)]
      rfl
    have joined := exec_bind_ok ha (fun left => do
      joinViews .inner (JoinMatch.on c).meaning left (← b.load env) env)
    rw [exec_bind_ok hb] at joined
    rw [exec_bind_ok loaded, cross_keepWhere h, Source.load]
    exact (joined.trans (joinViews_relational h)).symm

/-- Over `1`, NULL and `1`, `1`, `2`: the full join keeps both pairs, the NULL and the `2`. -/
theorem joins_relational_duplicates :
    let left : View := .ofRows (.ofNames "l" ["a"]) [[.integer 1], [.null]]
    let right : View := .ofRows (.ofNames "r" ["b"]) [[.integer 1], [.integer 1], [.integer 2]]
    let c : Expr := .compare .equal (.column none "a") (.column none "b")
    let a : Source := .values [[.literal (.integer 1)], [.literal .null]] (some "l") ["a"]
    let b : Source := .values [[.literal (.integer 1)], [.literal (.integer 1)],
      [.literal (.integer 2)]] (some "r") ["b"]
    exec (matchJoin .full left right (some (.ofOperand ⟨c, fun env => c.eval env⟩)) {}) {} =
        (.ok (.ofRows (left.header.append right.header) [[.integer 1, .integer 1],
          [.integer 1, .integer 1], [.null, .null], [.null, .integer 2]]), {}) ∧
      exec (do (← loadAll {} (loaders [a, b])).keepWhere ⟨c, fun env => c.eval env⟩ {}) {} =
        exec ((Source.join .inner a b (.on c)).load {}) {} := by
  intro left right c a b
  let truth (r : Record) : Truth := (r.value 0).test {} .equal (r.value 1)
  have decides : Decides (some (.ofOperand ⟨c, fun env => c.eval env⟩)) {} left right {} truth := by
    intro l hl r hr
    obtain rfl | rfl := List.mem_pair.mp hl
    · rcases hr with _ | ⟨_, _ | ⟨_, _ | ⟨_, ⟨⟩⟩⟩⟩ <;> exact ⟨_, rfl, rfl⟩
    · rcases hr with _ | ⟨_, _ | ⟨_, _ | ⟨_, ⟨⟩⟩⟩⟩ <;> exact ⟨_, rfl, rfl⟩
  obtain ⟨joins, sources⟩ := joins_relational
  exact ⟨(joins .full left right _ {} {} truth decides).1.trans rfl,
    sources a b c left right {} {} {} {} truth rfl rfl decides⟩

end TableQuery
