import Mathlib.Data.List.Nodup
import Mathlib.Data.Set.Lattice
import Mathlib.Order.Bounds.Basic
import TableQuery.Evaluation.Meaning
import TableQuery.Proofs.Evaluation.Run
import TableQuery.Proofs.Table.Multiplicity

/-!
# Recursive tables

A recursive table is built in layers: the records of the anchor, then what the step makes of them,
then what it makes of the new ones among these, until a round adds nothing. Each round sees the last
layer alone; keys that occurred in any layer are not added again, unless duplicates count.

The loop carries the keys that were seen. Here it is described by the records themselves: `Unfolds`
has one constructor for a round and one for the end, and all that is known about recursive tables
follows by induction over the rounds.
-/

namespace TableQuery

open Calendar Eval

/-! ## What a round adds -/

namespace View

/-- The keys of records. -/
def keySet (clock : Clock) (rs : List Record) : Set String :=
  {key | ∃ r ∈ rs, keyOf clock r = key}

/-- The records that a union adds to those before: with `all` every one, else the first one of each
key that does not occur before. -/
def newRecords (clock : Clock) (all : Bool) (before next : List Record) : List Record :=
  if all then next
  else unique clock (next.filter fun r => !(before.map (keyOf clock)).contains (keyOf clock r))

variable {clock : Clock} {all : Bool} {before next rs : List Record} {seen : List String}

theorem mem_keySet {key : String} :
    key ∈ keySet clock rs ↔ key ∈ rs.map (keyOf clock) :=
  List.mem_map.symm

theorem keyOf_mem_keySet {r : Record} (h : r ∈ rs) : keyOf clock r ∈ keySet clock rs :=
  ⟨r, h, rfl⟩

theorem keySet_append (as bs : List Record) :
    keySet clock (as ++ bs) = keySet clock as ∪ keySet clock bs := by
  ext key
  rw [Set.mem_union, mem_keySet, mem_keySet, mem_keySet, List.map_append, List.mem_append]

theorem keySet_mono {as bs : List Record} (h : as ⊆ bs) : keySet clock as ⊆ keySet clock bs :=
  fun _ ⟨r, hr, hkey⟩ => ⟨r, h hr, hkey⟩

/-- Keys to skip may be taken out beforehand. -/
theorem uniqueFrom_eq_filter {keys others : List String}
    (h : ∀ key, key ∈ seen ↔ key ∈ keys ∨ key ∈ others) (rs : List Record) :
    uniqueFrom clock seen rs
      = uniqueFrom clock others (rs.filter fun r => !keys.contains (keyOf clock r)) := by
  induction rs generalizing seen others with
  | nil => rfl
  | cons r rs ih =>
    have here := h (keyOf clock r)
    by_cases hk : keyOf clock r ∈ keys
    · rw [List.filter_cons_of_neg (by simpa using hk), uniqueFrom,
        if_pos (List.contains_iff_mem.mpr (here.mpr (.inl hk)))]
      exact ih h
    · rw [List.filter_cons_of_pos (by simpa using hk), uniqueFrom, uniqueFrom]
      have same : seen.contains (keyOf clock r) = others.contains (keyOf clock r) := by
        rw [Bool.eq_iff_iff, List.contains_iff_mem, List.contains_iff_mem, here]
        exact or_iff_right hk
      rw [same]
      split
      · exact ih h
      · refine congrArg _ (ih fun key => ?_)
        rw [List.mem_cons, List.mem_cons, h key]
        tauto

theorem keySet_unique (rs : List Record) : keySet clock (unique clock rs) = keySet clock rs := by
  ext key
  have counted := (unique_chooses clock rs).multiplicity key
  rw [mem_keySet, mem_keySet, ← List.count_pos_iff, ← List.count_pos_iff, count_map_keyOf,
    count_map_keyOf, counted]
  split <;> omega

theorem nodup_unique (rs : List Record) : ((unique clock rs).map (keyOf clock)).Nodup := by
  refine List.nodup_iff_count_le_one.mpr fun key => ?_
  rw [count_map_keyOf, (unique_chooses clock rs).multiplicity key]
  split <;> omega

theorem newRecords_subset : newRecords clock all before next ⊆ next := by
  unfold newRecords
  split
  · exact List.Subset.refl _
  · exact List.Subset.trans (uniqueFrom_subset _ _ _) List.filter_sublist.subset

/-- After a round exactly the keys from before and those of the round occur. -/
theorem keySet_append_newRecords :
    keySet clock (before ++ newRecords clock all before next)
      = keySet clock before ∪ keySet clock next := by
  rw [keySet_append]
  unfold newRecords
  split
  · rfl
  · ext key
    rw [keySet_unique, Set.mem_union, Set.mem_union]
    refine or_congr_right' fun old => ⟨fun ⟨r, hr, hkey⟩ => ⟨r, (List.mem_filter.mp hr).1, hkey⟩, ?_⟩
    rintro ⟨r, hr, rfl⟩
    exact ⟨r, List.mem_filter.mpr ⟨hr, by simpa [← mem_keySet] using old⟩, rfl⟩

/-- Without `all` a round repeats no key. -/
theorem nodup_append_newRecords (h : (before.map (keyOf clock)).Nodup) :
    ((before ++ newRecords clock false before next).map (keyOf clock)).Nodup := by
  rw [List.map_append]
  refine h.append (nodup_unique _) fun key old added => ?_
  rw [← mem_keySet, newRecords, if_neg Bool.false_ne_true, keySet_unique] at added
  obtain ⟨r, hr, rfl⟩ := added
  have fresh := (List.mem_filter.mp hr).2
  rw [List.contains_iff_mem.mpr old] at fresh
  cases fresh

/-- The keys that a loop has seen are those of the records before, if it asks for them. -/
def Seen (clock : Clock) (all : Bool) (before : List Record) (seen : List String) : Prop :=
  all = false → ∀ key, key ∈ seen ↔ key ∈ before.map (keyOf clock)

theorem freshRecords_eq (h : Seen clock all before seen) (next : List Record) :
    ∃ now, freshRecords clock all seen next = (newRecords clock all before next, now) ∧
      Seen clock all (before ++ newRecords clock all before next) now := by
  cases all with
  | true => exact ⟨seen, rfl, fun h => by cases h⟩
  | false =>
    have same : uniqueFrom clock seen next = newRecords clock false before next :=
      uniqueFrom_eq_filter (fun key => (h rfl key).trans (by simp)) next
    rw [← same]
    refine ⟨_, rfl, fun _ key => ?_⟩
    rw [List.mem_append, List.map_append, List.mem_append, h rfl key]
    exact or_comm

end View

/-! ## Unions that define themselves -/

/-- A definition `name (columns) AS (anchor UNION [ALL] step)`. -/
structure RecursiveUnion where
  name : String
  columns : List String
  all : Bool
  anchor : Body
  step : Body

namespace RecursiveUnion

/-- The definition with the clauses that stand around its union. -/
def definitionWith (u : RecursiveUnion) (recursive : Bool) (tables : List InlineDef)
    (order : List OrderItem) (offset : Option Expr) (limit : Limit) : InlineDef :=
  .mk u.name u.columns
    (.mk recursive tables (.combine .union u.all u.anchor u.step) order offset limit)

/-- The definition without further clauses. -/
def definition (u : RecursiveUnion) : InlineDef :=
  u.definitionWith false [] [] none .all

/-- The two sides of the union with their meanings. -/
def parts (u : RecursiveUnion) : UnionParts :=
  ⟨u.all, fun env => u.anchor.run env, u.step, fun env => u.step.run env⟩

variable {u : RecursiveUnion} {env : Env} {header : Header} {first : View} {s t w : Scope}
  {before layer rows added : List Record} {produced layers : List (List Record)}
  {seen : List String}

/-- The step gives rows as wide as the table while the name stands for the records of a layer. -/
def StepGives (u : RecursiveUnion) (env : Env) (header : Header) (layer : List Record) (s : Scope)
    (rows : List Record) (t : Scope) : Prop :=
  ∃ v, exec (u.step.run (env.withRecursive ⟨u.name, { header, records := layer }⟩)) s = (.ok v, t) ∧
    v.fix.header.width = header.width ∧ v.fix.records = rows

/-- The layers after the records `before`, down to the empty one, with the rows that the step gave
for each of the others. -/
inductive Unfolds (u : RecursiveUnion) (env : Env) (header : Header) :
    (before : List Record) → Scope → (produced layers : List (List Record)) → Scope → Prop
  | done {before : List Record} {s : Scope} : Unfolds u env header before s [] [[]] s
  | round {before layer rows next : List Record} {s t w : Scope}
    {produced layers : List (List Record)} (nonempty : layer ≠ [])
    (step : u.StepGives env header layer s rows t)
    (added : next = View.newRecords env.clock u.all (before ++ layer) rows)
    (rest : Unfolds u env header (before ++ layer) t produced (next :: layers) w) :
    Unfolds u env header before s (rows :: produced) (layer :: next :: layers) w

/-- The rounds of the table end: the anchor gives the view `first`, its records (without repeated
keys, unless duplicates count) are the first layer, and the layers unfold from there. -/
def Computes (u : RecursiveUnion) (env : Env) (s : Scope) (first : View)
    (produced layers : List (List Record)) (t : Scope) : Prop :=
  ∃ v w rest, exec (u.anchor.run env) s = (.ok v, w) ∧
    inlineView u.name u.columns v.fix = .ok first ∧
    layers = View.newRecords env.clock u.all [] first.records :: rest ∧
    u.Unfolds env first.header [] w produced layers t

/-- The table of the given layers. -/
def table (first : View) (layers : List (List Record)) : View :=
  { header := first.header, records := layers.flatten }

/-- Within a round the name stands for the records of the last layer. -/
theorem loadNamed_layer (name : String) (aliasName : Option String) (s : Scope)
    (h : Text.sameIgnoringCase u.name name = true) :
    exec (loadNamed name aliasName (env.withRecursive ⟨u.name, { header, records := layer }⟩)) s
      = (.ok { header := header.asTable (aliasName.getD name) [], records := layer }, s) := by
  have found : (env.withRecursive ⟨u.name, { header, records := layer }⟩).inlineTable? name
      = some ⟨u.name, { header, records := layer }⟩ :=
    List.find?_cons_of_pos h
  rw [loadNamed, found]
  rfl

/-! ## The loop -/

/-- A loop that has seen the keys of all records so far runs through the layers. -/
theorem recursiveRounds_eq_ok_iff {limit : Nat}
    (hseen : View.Seen env.clock u.all (before ++ layer) seen) :
    exec (recursiveRounds u.name header u.parts env limit seen layer) s = (.ok added, t) ↔
      ∃ produced layers, u.Unfolds env header before s produced (layer :: layers) t ∧
        produced.length < limit ∧ added = layers.flatten := by
  induction limit generalizing before layer seen s added with
  | zero =>
    constructor
    · intro h
      cases h
    · rintro ⟨_, _, -, hlimit, -⟩
      exact absurd hlimit (Nat.not_lt_zero _)
  | succ limit ih =>
    cases hlayer : layer with
    | nil =>
      constructor
      · intro h
        cases h
        exact ⟨[], [], .done, Nat.succ_pos _, rfl⟩
      · rintro ⟨_, _, unfolds, -, rfl⟩
        cases unfolds with
        | done => rfl
        | round nonempty => exact absurd rfl nonempty
    | cons r rs =>
      rw [← hlayer]
      have nonempty : layer ≠ [] := hlayer ▸ List.cons_ne_nil r rs
      rw [recursiveRounds, if_neg (by simpa using nonempty)]
      constructor
      · intro h
        obtain ⟨v, w, hv, h⟩ := exec_bind_eq_ok h
        obtain ⟨now, fresh, hnow⟩ := View.freshRecords_eq hseen v.fix.records
        dsimp only at h
        rw [show u.parts.all = u.all from rfl, fresh] at h
        split at h
        · cases h
        rename_i hwidth
        obtain ⟨rest, _, hrest, h⟩ := exec_bind_eq_ok h
        cases h
        obtain ⟨produced, layers, unfolds, hlimit, rfl⟩ := (ih hnow).mp hrest
        exact ⟨_, _, .round nonempty ⟨v, hv, by simpa using hwidth, rfl⟩ rfl unfolds,
          Nat.succ_lt_succ hlimit, rfl⟩
      · rintro ⟨_, _, unfolds, hlimit, rfl⟩
        cases unfolds with
        | done => exact absurd rfl nonempty
        | round _ step hnext rest =>
          obtain ⟨v, hv, hwidth, rfl⟩ := step
          subst hnext
          obtain ⟨now, fresh, hnow⟩ := View.freshRecords_eq hseen v.fix.records
          have hrest := (ih hnow).mpr ⟨_, _, rest, Nat.lt_of_succ_lt_succ hlimit, rfl⟩
          refine (exec_bind_ok hv _).trans ?_
          dsimp only
          rw [if_neg (by simpa using hwidth), show u.parts.all = u.all from rfl, fresh]
          exact exec_bind_ok hrest _

/-- The table of a definition is the one of its layers, if they end before the limit of rounds. -/
theorem recursiveTable_eq_ok_iff {v : View} :
    exec (recursiveTable u.name u.columns u.parts env) s = (.ok v, t) ↔
      ∃ first produced layers, u.Computes env s first produced layers t ∧
        produced.length < env.settings.rounds ∧ v = table first layers := by
  have nothing : View.Seen env.clock u.all [] [] := fun _ _ => Iff.rfl
  have seen (first : View) := View.freshRecords_eq nothing first.records
  constructor
  · intro h
    obtain ⟨anchor, x, hanchor, h⟩ := exec_bind_eq_ok h
    obtain ⟨first, y, hfirst, h⟩ := exec_bind_eq_ok h
    obtain ⟨hview, rfl⟩ := Prod.mk.inj hfirst
    obtain ⟨now, fresh, hnow⟩ := seen first
    rw [show u.parts.all = u.all from rfl, fresh] at h
    obtain ⟨added, _, hadded, h⟩ := exec_bind_eq_ok h
    cases h
    obtain ⟨produced, layers, unfolds, hlimit, rfl⟩ := (recursiveRounds_eq_ok_iff hnow).mp hadded
    exact ⟨first, produced, _, ⟨anchor, _, layers, hanchor, hview, rfl, unfolds⟩, hlimit, rfl⟩
  · rintro ⟨first, produced, _, ⟨anchor, x, rest, hanchor, hview, rfl, unfolds⟩, hlimit, rfl⟩
    obtain ⟨now, fresh, hnow⟩ := seen first
    have hadded := (recursiveRounds_eq_ok_iff hnow).mpr ⟨_, _, unfolds, hlimit, rfl⟩
    have hfirst : exec (liftM (inlineView u.name u.columns anchor.fix) : Eval View) x
        = (.ok first, x) := by
      rw [exec_lift, hview]
    refine (exec_bind_ok hanchor _).trans ((exec_bind_ok hfirst _).trans ?_)
    rw [show u.parts.all = u.all from rfl, fresh]
    exact exec_bind_ok hadded _

/-- A `WITH RECURSIVE` clause gives the name to the table of its layers, whatever clauses stand
around the union. -/
theorem inlineTables_eq_ok_iff (reads : u.step.reads u.name = true) {recursive : Bool}
    {tables later : List InlineDef} {order : List OrderItem} {offset : Option Expr} {limit : Limit}
    {after : Env} :
    exec (inlineTables (u.definitionWith recursive tables order offset limit :: later) true env) s
        = (.ok after, t) ↔
      ∃ first produced layers w, u.Computes env s first produced layers w ∧
        produced.length < env.settings.rounds ∧
        exec (inlineTables later true (env.withInlineTable ⟨u.name, table first layers⟩)) w
          = (.ok after, t) := by
  have rounds : inlineTables (u.definitionWith recursive tables order offset limit :: later) true env
      = (do
        let v ← recursiveTable u.name u.columns u.parts env
        inlineTables later true (env.withInlineTable ⟨u.name, v⟩)) := by
    rw [definitionWith, inlineTables, Query.unionParts?, inlineTable]
    dsimp only
    rw [Bool.true_and, if_pos reads]
    rfl
  rw [rounds]
  constructor
  · intro h
    obtain ⟨v, w, hv, h⟩ := exec_bind_eq_ok h
    obtain ⟨first, produced, layers, computes, hlimit, rfl⟩ := recursiveTable_eq_ok_iff.mp hv
    exact ⟨first, produced, layers, w, computes, hlimit, h⟩
  · rintro ⟨first, produced, layers, w, computes, hlimit, h⟩
    rw [exec_bind_ok (recursiveTable_eq_ok_iff.mpr ⟨_, _, _, computes, hlimit, rfl⟩)]
    exact h

/-! ## What the layers hold -/

/-- Without `ALL` no key occurs twice. -/
theorem Unfolds.nodup (h : u.Unfolds env header before s produced layers t) (hu : u.all = false)
    (start : ∀ layer ∈ layers.head?, ((before ++ layer).map (View.keyOf env.clock)).Nodup) :
    ((before ++ layers.flatten).map (View.keyOf env.clock)).Nodup := by
  induction h with
  | done => exact start [] rfl
  | @round before layer rows next s t w produced layers _ _ added _ ih =>
    rw [List.flatten_cons, ← List.append_assoc]
    refine ih fun _ hnext => ?_
    cases hnext
    rw [added, hu]
    exact View.nodup_append_newRecords (start layer rfl)

/-- Every key that the step gave in some round occurs. -/
theorem Unfolds.produced_subset (h : u.Unfolds env header before s produced layers t) :
    ∀ rows ∈ produced,
      View.keySet env.clock rows ⊆ View.keySet env.clock (before ++ layers.flatten) := by
  induction h with
  | done => exact fun _ hrows => absurd hrows List.not_mem_nil
  | @round before layer rows next s t w produced layers _ _ added _ ih =>
    rw [List.flatten_cons, ← List.append_assoc]
    intro _ hrows
    cases hrows with
    | tail _ hrows => exact ih _ hrows
    | head =>
      have round : View.keySet env.clock rows ⊆ View.keySet env.clock (before ++ layer ++ next) := by
        rw [added, View.keySet_append_newRecords]
        exact Set.subset_union_right
      refine round.trans (View.keySet_mono ?_)
      rw [List.flatten_cons, ← List.append_assoc]
      exact List.subset_append_left _ _

/-- The keys that the step gives for records are those that it gives for the single ones, and for
each of these its key alone counts. -/
def StepsByKey (u : RecursiveUnion) (env : Env) (header : Header) (produces : String → Set String)
    (rs : List Record) : Prop :=
  ∀ s rows t, u.StepGives env header rs s rows t →
    View.keySet env.clock rows = ⋃ r ∈ rs, produces (View.keyOf env.clock r)

variable {produces : String → Set String}

/-- What a key produces was added in the round after it. -/
theorem Unfolds.closed (h : u.Unfolds env header before s produced layers t)
    (byKey : ∀ layer ∈ layers, u.StepsByKey env header produces layer) :
    ∀ key ∈ View.keySet env.clock layers.flatten,
      produces key ⊆ View.keySet env.clock (before ++ layers.flatten) := by
  induction h with
  | done =>
    rintro key ⟨r, hr, -⟩
    cases hr
  | @round before layer rows next s t w produced layers nonempty step added rest ih =>
    have later := ih fun l hl => byKey l (List.mem_cons_of_mem _ hl)
    have given := (Unfolds.round nonempty step added rest).produced_subset rows List.mem_cons_self
    rw [byKey layer List.mem_cons_self _ _ _ step] at given
    rintro key ⟨r, hr, rfl⟩
    rw [List.flatten_cons] at hr
    rcases List.mem_append.mp hr with hr | hr
    · exact (Set.subset_biUnion_of_mem (u := fun r => produces (View.keyOf env.clock r)) hr).trans
        given
    · rw [List.flatten_cons, ← List.append_assoc]
      exact later _ ⟨r, hr, rfl⟩

/-- The layers stay within every set of keys that holds the first one and what its keys produce. -/
theorem Unfolds.subset_of_closed (h : u.Unfolds env header before s produced layers t)
    (byKey : ∀ layer ∈ layers, u.StepsByKey env header produces layer) {keys : Set String}
    (closed : ∀ key ∈ keys, produces key ⊆ keys)
    (start : ∀ layer ∈ layers.head?, View.keySet env.clock layer ⊆ keys) :
    View.keySet env.clock layers.flatten ⊆ keys := by
  induction h with
  | done => exact start [] rfl
  | @round before layer rows next s t w produced layers _ step added _ ih =>
    have first := start layer rfl
    rw [List.flatten_cons, View.keySet_append]
    refine Set.union_subset first (ih (fun l hl => byKey l (List.mem_cons_of_mem _ hl)) fun _ hl => ?_)
    cases hl
    rw [added]
    refine (View.keySet_mono View.newRecords_subset).trans ?_
    rw [byKey layer List.mem_cons_self _ _ _ step]
    exact Set.iUnion₂_subset fun r hr => closed _ (first (View.keyOf_mem_keySet hr))

/-- The first layer has the keys of the anchor. -/
theorem keySet_newRecords_nil (clock : Clock) (all : Bool) (rs : List Record) :
    View.keySet clock (View.newRecords clock all [] rs) = View.keySet clock rs := by
  have h : View.keySet clock ([] ++ View.newRecords clock all [] rs)
      = View.keySet clock [] ∪ View.keySet clock rs :=
    View.keySet_append_newRecords
  rwa [List.nil_append, show View.keySet clock [] = ∅ from Set.eq_empty_of_forall_notMem
    fun key ⟨r, hr, _⟩ => List.not_mem_nil hr, Set.empty_union] at h

end RecursiveUnion

open RecursiveUnion in
/-- A recursive union that reads its name gives the concatenation of its layers, if their number
stays below the limit of the engine. Without `ALL` no two records share a key. The keys of all rows
that the step ever gave occur, and if the step works key by key, the keys of the table are the least
set that holds those of the anchor and what its own keys produce. -/
theorem recursive_union_is_layered_fixpoint (u : RecursiveUnion)
    (reads : u.step.reads u.name = true) (later : List InlineDef) (env after : Env) (s t : Scope) :
    (exec (inlineTables (u.definition :: later) true env) s = (.ok after, t) ↔
      ∃ first produced layers w, u.Computes env s first produced layers w ∧
        produced.length < env.settings.rounds ∧
        exec (inlineTables later true (env.withInlineTable ⟨u.name, table first layers⟩)) w
          = (.ok after, t)) ∧
    ∀ first produced layers w, u.Computes env s first produced layers w →
      (u.all = false → ((table first layers).records.map (View.keyOf env.clock)).Nodup) ∧
      (∀ rows ∈ produced,
        View.keySet env.clock rows ⊆ View.keySet env.clock (table first layers).records) ∧
      ∀ produces : String → Set String,
        (∀ rs ⊆ (table first layers).records, u.StepsByKey env first.header produces rs) →
        IsLeast {keys | View.keySet env.clock first.records ⊆ keys ∧
            ∀ key ∈ keys, produces key ⊆ keys}
          (View.keySet env.clock (table first layers).records) := by
  refine ⟨inlineTables_eq_ok_iff reads, ?_⟩
  rintro first produced _ w ⟨anchor, x, rest, -, -, rfl, unfolds⟩
  refine ⟨fun distinct => ?_, unfolds.produced_subset, fun produces byKey => ?_⟩
  · refine unfolds.nodup distinct fun _ hlayer => ?_
    cases hlayer
    rw [distinct]
    have none_twice : (([] : List Record).map (View.keyOf env.clock)).Nodup := List.nodup_nil
    exact View.nodup_append_newRecords none_twice
  · have layersByKey : ∀ layer ∈ View.newRecords env.clock u.all [] first.records :: rest,
        u.StepsByKey env first.header produces layer :=
      fun layer hl => byKey layer (List.sublist_flatten_of_mem hl).subset
    refine ⟨⟨?_, unfolds.closed layersByKey⟩, fun keys hkeys => ?_⟩
    · rw [← keySet_newRecords_nil env.clock u.all]
      exact View.keySet_mono (List.sublist_flatten_of_mem List.mem_cons_self).subset
    · refine unfolds.subset_of_closed layersByKey hkeys.2 fun _ hlayer => ?_
      cases hlayer
      rw [keySet_newRecords_nil]
      exact hkeys.1

/-- `SELECT * FROM source`. -/
def selectAll (source : Source) : Body :=
  .select false [.mk .allColumns none] [source] none [] none

theorem exec_selectAll {source : Source} {env : Env} {s t : Scope} {v : View}
    (h : exec (source.load env) s = (.ok v, t)) :
    exec ((selectAll source).run env) s
      = (.ok { v with selected := some v.header.tableColumns }, t) := by
  have loaded : exec (loadAll env (loaders [source])) s = (.ok v, t) :=
    exec_bind_ok h _
  have ungrouped : View.groupFor (selectItems [.mk .allColumns none]) v = v :=
    if_neg (by simp [show aggregates (selectItems [.mk .allColumns none]) = false from rfl])
  refine (exec_bind_ok loaded _).trans ?_
  have selected : exec ((select (selectItems [.mk .allColumns none]) env).runOn v) t
      = (.ok { v with selected := some v.header.tableColumns }, t) := by
    rw [Stage.exec_runOn, select, Stage.exec_bind_ok (Stage.exec_modifyView ..), ungrouped,
      ← show [v.header.tableColumns].flatten = v.header.tableColumns from List.append_nil _]
    rfl
  exact exec_bind_ok (x := (select (selectItems [.mk .allColumns none]) env).runOn v) selected pure


/-- The definition `t (n) AS (SELECT * FROM (VALUES (1), (2), (1)) UNION SELECT * FROM t)`, whose
step copies the last layer. -/
def RecursiveUnion.copies : RecursiveUnion where
  name := "t"
  columns := ["n"]
  all := false
  anchor := selectAll (.values [[.literal (.integer 1)], [.literal (.integer 2)],
    [.literal (.integer 1)]] none [])
  step := selectAll (.named "t" none)

namespace RecursiveUnion.copies

/-- The rows of the anchor. -/
def first : View :=
  .ofRows (.ofNames "t" ["n"]) [[.integer 1], [.integer 2], [.integer 1]]

/-- The only layer that is not empty. -/
def layer : List Record :=
  [.ofValues [.integer 1], .ofValues [.integer 2]]

theorem reads : copies.step.reads copies.name = true := by
  decide +kernel

/-- The step gives the records again. -/
theorem stepGives_iff {rs rows : List Record} (hrs : rs ⊆ layer) {s t : Scope} :
    copies.StepGives {} first.header rs s rows t ↔ rows = rs ∧ t = s := by
  have found : Text.sameIgnoringCase "t" "t" = true := by decide +kernel
  have loaded : exec (loadNamed "t" none
      ((({} : Env).withRecursive ⟨copies.name, { header := first.header, records := rs }⟩))) s
        = (.ok { header := first.header.asTable "t" [], records := rs }, s) :=
    loadNamed_layer "t" none s found
  have run := @exec_selectAll (.named "t" none) _ _ _ _ loaded
  have same : (rs.map fun r => (r.project [0]).collapse) = rs := by
    refine (List.map_congr_left fun r hr => ?_).trans (List.map_id rs)
    rcases List.mem_pair.mp (hrs hr) with rfl | rfl <;> rfl
  constructor
  · rintro ⟨v, hv, -, rfl⟩
    cases run.symm.trans hv
    exact ⟨same, rfl⟩
  · rintro ⟨rfl, rfl⟩
    exact ⟨_, run, rfl, same⟩

theorem computes : copies.Computes {} {} first [layer] [layer, []] {} := by
  have initial : View.newRecords {} false [] first.records = layer := rfl
  have fresh : View.newRecords {} false layer layer = [] := rfl
  refine ⟨_, {}, [[]], exec_selectAll rfl, rfl, congrArg (· :: [[]]) initial.symm, ?_⟩
  exact .round (List.cons_ne_nil _ _)
    ((stepGives_iff (List.Subset.refl _)).mpr ⟨rfl, rfl⟩) fresh.symm .done

end RecursiveUnion.copies

open RecursiveUnion in
/-- Copies of the rows 1 and 2 add nothing to these. -/
theorem recursive_union_is_layered_fixpoint_of_copies :
    copies.step.reads copies.name = true ∧
      copies.Computes {} {} copies.first [copies.layer] [copies.layer, []] {} ∧
      (∃ after, exec (inlineTables [copies.definition] true {}) {} = (.ok after, {})) ∧
      (copies.layer.map (View.keyOf {})).Nodup ∧
      IsLeast {keys | View.keySet {} copies.first.records ⊆ keys ∧ ∀ key ∈ keys, {key} ⊆ keys}
        (View.keySet {} copies.layer) := by
  obtain ⟨runs, facts⟩ :=
    recursive_union_is_layered_fixpoint copies copies.reads [] {} _ {} {}
  have ran := runs.mpr ⟨copies.first, _, _, {}, copies.computes, by decide, rfl⟩
  obtain ⟨nodup, -, least⟩ := facts copies.first _ _ _ copies.computes
  refine ⟨copies.reads, copies.computes, ⟨_, ran⟩, nodup rfl, least (fun key => {key}) ?_⟩
  intro rs hrs s rows t step
  rw [((copies.stepGives_iff hrs).mp step).1]
  ext key
  simp [View.keySet, eq_comm]

end TableQuery
