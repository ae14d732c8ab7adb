import Mathlib.Data.List.Forall2
import Mathlib.Data.List.GetD
import Mathlib.Data.List.Induction
import TableQuery.Table.Arrangement

/-!
# Groups partition rows

Every row is in one group. It joins the first group whose first row has an equivalent key, and if
there is no such group it starts one. Nothing is asked of the equivalence, which is not transitive.
-/

namespace TableQuery

open Calendar

variable {clock : Clock} {keys : List (List Value)} {key : List Value}

/-- The keys are equivalent value by value. -/
def EquivalentKeys (clock : Clock) (k l : List Value) : Prop :=
  List.Forall₂ (fun a b => a.equivalent clock b = .yes) k l

theorem allEquivalent_iff {k l : List Value} (h : k.length = l.length) :
    Value.allEquivalent clock k l = true ↔ EquivalentKeys clock k l := by
  induction k generalizing l with
  | nil =>
    cases l with
    | nil => exact ⟨fun _ => .nil, fun _ => rfl⟩
    | cons b l => cases h
  | cons a k ih =>
    cases l with
    | nil => cases h
    | cons b l =>
      have holds : (a.equivalent clock b).holds = true ↔ a.equivalent clock b = .yes := by
        cases a.equivalent clock b <;> decide
      rw [Value.allEquivalent, Bool.and_eq_true, holds, ih (Nat.succ.inj h)]
      exact (List.forall₂_cons (R := fun a b : Value => a.equivalent clock b = .yes)).symm

/-- The first row of the group comes before the row and has an equivalent key. -/
def Leads (clock : Clock) (keys : List (List Value)) (group : List Nat) (i : Nat) : Prop :=
  group.headD 0 < i ∧ EquivalentKeys clock (keys.getD (group.headD 0) []) (keys.getD i [])

/-- The groups are a partition of the rows with the given keys. -/
structure KeyPartition (clock : Clock) (keys : List (List Value)) (groups : List (List Nat)) :
    Prop where
  /-- Each row is in one group, and once. -/
  perm : groups.flatten.Perm (List.range keys.length)
  nonempty : ∀ group ∈ groups, group ≠ []
  ascending : ∀ group ∈ groups, group.Pairwise (· < ·)
  firsts : (groups.map fun group => group.headD 0).Pairwise (· < ·)
  /-- A row is in the first group that leads it. -/
  joins : ∀ before group after, groups = before ++ group :: after → ∀ i < keys.length,
    (∀ earlier ∈ before, ¬ Leads clock keys earlier i) → Leads clock keys group i → i ∈ group
  /-- A row that no group leads is the first of a group. -/
  starts : ∀ i < keys.length, (∀ group ∈ groups, ¬ Leads clock keys group i) →
    ∃ group ∈ groups, group.head? = some i

theorem KeyPartition.lt {groups : List (List Nat)} {group : List Nat} {i : Nat}
    (h : KeyPartition clock keys groups) (mem : group ∈ groups) (hi : i ∈ group) :
    i < keys.length :=
  List.mem_range.mp (h.perm.subset (List.mem_flatten.mpr ⟨group, mem, hi⟩))

/-! ## One more row -/

/-- A row joins the first group that its key fits, or starts the last group. -/
theorem KeyGroup.add_cases (clock : Clock) (key : List Value) (i : Nat) (groups : List KeyGroup) :
    (KeyGroup.add clock key i groups = groups ++ [⟨key, [i]⟩] ∧
      ∀ g ∈ groups, Value.allEquivalent clock g.key key = false) ∨
    ∃ before g after, groups = before ++ g :: after ∧
      (∀ h ∈ before, Value.allEquivalent clock h.key key = false) ∧
      Value.allEquivalent clock g.key key = true ∧
      KeyGroup.add clock key i groups = before ++ ⟨g.key, g.members ++ [i]⟩ :: after := by
  induction groups with
  | nil => exact .inl ⟨rfl, List.forall_mem_nil _⟩
  | cons g groups ih =>
    cases fits : Value.allEquivalent clock g.key key with
    | true =>
      refine .inr ⟨[], g, groups, rfl, List.forall_mem_nil _, fits, ?_⟩
      rw [add, fits]
      rfl
    | false =>
      have step : add clock key i (g :: groups) = g :: add clock key i groups := by
        rw [add, fits]
        rfl
      rw [step]
      obtain ⟨added, none_fits⟩ | ⟨before, h, after, rfl, skipped, fit, added⟩ := ih
      · exact .inl ⟨congrArg _ added, List.forall_mem_cons.mpr ⟨fits, none_fits⟩⟩
      · exact .inr ⟨g :: before, h, after, rfl, List.forall_mem_cons.mpr ⟨fits, skipped⟩, fit,
          congrArg _ added⟩

/-- The key of the group fits that of the row. -/
def KeyGroup.Fits (clock : Clock) (keys : List (List Value)) (g : KeyGroup) (i : Nat) : Prop :=
  Value.allEquivalent clock g.key (keys.getD i []) = true

/-- The groups hold the rows with the given keys, which were added in order. -/
structure KeyGroup.Hold (clock : Clock) (keys : List (List Value)) (groups : List KeyGroup) :
    Prop where
  perm : (groups.flatMap KeyGroup.members).Perm (List.range keys.length)
  leader : ∀ g ∈ groups, ∃ first rest, g.members = first :: rest ∧ keys[first]? = some g.key
  ascending : ∀ g ∈ groups, g.members.Pairwise (· < ·)
  firsts : groups.Pairwise fun g h => g.members.headD 0 < h.members.headD 0
  led : ∀ g ∈ groups, ∀ i ∈ g.members, i = g.members.headD 0 ∨ g.Fits clock keys i
  /-- No row fits an earlier group. -/
  skips : groups.Pairwise fun g h => ∀ i ∈ h.members, ¬ g.Fits clock keys i

namespace KeyGroup

variable {groups : List KeyGroup} {g : KeyGroup} {i : Nat}

theorem Hold.nil (clock : Clock) : Hold clock [] [] where
  perm := .nil
  leader _ hg := nomatch hg
  ascending _ hg := nomatch hg
  firsts := .nil
  led _ hg := nomatch hg
  skips := .nil

theorem Hold.lt (h : Hold clock keys groups) (hg : g ∈ groups) (hi : i ∈ g.members) :
    i < keys.length :=
  List.mem_range.mp (h.perm.subset (List.mem_flatMap.mpr ⟨g, hg, hi⟩))

theorem fits_append (hi : i < keys.length) :
    g.Fits clock (keys ++ [key]) i ↔ g.Fits clock keys i := by
  rw [Fits, List.getD_append _ _ _ _ hi, Fits]

theorem fits_last :
    g.Fits clock (keys ++ [key]) keys.length ↔ Value.allEquivalent clock g.key key = true := by
  rw [Fits, List.getD_append_right _ _ _ _ (Nat.le_refl _), Nat.sub_self]
  rfl

theorem Hold.leader_append (h : Hold clock keys groups) (key : List Value) : ∀ g ∈ groups,
    ∃ first rest, g.members = first :: rest ∧ (keys ++ [key])[first]? = some g.key := by
  intro g hg
  obtain ⟨first, rest, members, leader⟩ := h.leader g hg
  have lt := (List.getElem?_eq_some_iff.mp leader).1
  exact ⟨first, rest, members, by rw [List.getElem?_append_left lt, leader]⟩

theorem Hold.led_append (h : Hold clock keys groups) (key : List Value) : ∀ g ∈ groups,
    ∀ i ∈ g.members, i = g.members.headD 0 ∨ g.Fits clock (keys ++ [key]) i := by
  intro g hg i hi
  rw [fits_append (h.lt hg hi)]
  exact h.led g hg i hi

theorem Hold.skips_append (h : Hold clock keys groups) (key : List Value) :
    groups.Pairwise fun g h => ∀ i ∈ h.members, ¬ g.Fits clock (keys ++ [key]) i := by
  refine h.skips.imp_of_mem fun _ hh skips i hi => ?_
  rw [fits_append (h.lt hh hi)]
  exact skips i hi

theorem Hold.head_lt (h : Hold clock keys groups) (hg : g ∈ groups) :
    g.members.headD 0 < keys.length := by
  obtain ⟨first, rest, members, leader⟩ := h.leader g hg
  rw [members]
  exact (List.getElem?_eq_some_iff.mp leader).1

/-- The next row starts a group if its key fits none. -/
theorem Hold.start (h : Hold clock keys groups)
    (alone : ∀ g ∈ groups, Value.allEquivalent clock g.key key = false) :
    Hold clock (keys ++ [key]) (groups ++ [⟨key, [keys.length]⟩]) where
  perm := by
    rw [List.flatMap_append, List.length_append, List.length_singleton, List.range_succ]
    exact h.perm.append_right _
  leader := by
    refine List.forall_mem_append.mpr ⟨h.leader_append key, List.forall_mem_singleton.mpr ?_⟩
    exact ⟨keys.length, [], rfl, List.getElem?_concat_length⟩
  ascending := by
    refine List.forall_mem_append.mpr ⟨h.ascending, List.forall_mem_singleton.mpr ?_⟩
    exact List.pairwise_singleton ..
  firsts := by
    refine List.pairwise_append.mpr ⟨h.firsts, List.pairwise_singleton .., fun g hg => ?_⟩
    exact List.forall_mem_singleton.mpr (h.head_lt hg)
  led := by
    refine List.forall_mem_append.mpr ⟨h.led_append key, List.forall_mem_singleton.mpr ?_⟩
    exact List.forall_mem_singleton.mpr (.inl rfl)
  skips := by
    refine List.pairwise_append.mpr ⟨h.skips_append key, List.pairwise_singleton .., fun g hg => ?_⟩
    refine List.forall_mem_singleton.mpr (List.forall_mem_singleton.mpr ?_)
    rw [fits_last, alone g hg]
    exact Bool.false_ne_true

/-- The next row joins the first group that its key fits. -/
theorem Hold.join {before after : List KeyGroup} (h : Hold clock keys (before ++ g :: after))
    (skipped : ∀ h ∈ before, Value.allEquivalent clock h.key key = false)
    (fits : Value.allEquivalent clock g.key key = true) :
    Hold clock (keys ++ [key]) (before ++ ⟨g.key, g.members ++ [keys.length]⟩ :: after) := by
  obtain ⟨first, rest, members, -⟩ := h.leader g (by simp)
  have head : (g.members ++ [keys.length]).headD 0 = g.members.headD 0 := by rw [members]; rfl
  have leader := h.leader_append key
  have led := h.led_append key
  have skips := h.skips_append key
  have ascending := h.ascending
  have firsts := h.firsts
  have lt := fun i => h.lt (g := g) (i := i) (by simp)
  simp only [List.forall_mem_append, List.forall_mem_cons, List.pairwise_append,
    List.pairwise_cons] at leader led skips ascending firsts
  constructor
  · -- the new row stands at the end of its group, not of all groups
    have perm := h.perm.append_right [keys.length]
    simp only [List.flatMap_append, List.flatMap_cons, List.append_assoc, List.length_append,
      List.length_singleton, List.range_succ] at perm ⊢
    exact ((List.perm_append_comm.append_left _).append_left _).trans perm
  · simp only [List.forall_mem_append, List.forall_mem_cons]
    refine ⟨leader.1, ?_, leader.2.2⟩
    obtain ⟨first, rest, members, at_first⟩ := leader.2.1
    exact ⟨first, rest ++ [keys.length], by rw [members]; rfl, at_first⟩
  · simp only [List.forall_mem_append, List.forall_mem_cons]
    refine ⟨ascending.1, ?_, ascending.2.2⟩
    refine List.pairwise_append.mpr ⟨ascending.2.1, List.pairwise_singleton .., fun i hi => ?_⟩
    exact List.forall_mem_singleton.mpr (lt i hi)
  · simp only [List.pairwise_append, List.pairwise_cons, List.forall_mem_cons, head]
    exact firsts
  · simp only [List.forall_mem_append, List.forall_mem_cons, head]
    exact ⟨led.1, ⟨led.2.1, .inr (fits_last.mpr fits), List.forall_mem_nil _⟩, led.2.2⟩
  · simp only [List.pairwise_append, List.pairwise_cons, List.forall_mem_cons,
      List.forall_mem_append]
    refine ⟨skips.1, skips.2.1, fun h hh => ⟨⟨(skips.2.2 h hh).1, ?_⟩, (skips.2.2 h hh).2⟩⟩
    refine ⟨?_, List.forall_mem_nil _⟩
    rw [fits_last, skipped h hh]
    exact Bool.false_ne_true

theorem Hold.add (h : Hold clock keys groups) :
    Hold clock (keys ++ [key]) (KeyGroup.add clock key keys.length groups) := by
  obtain ⟨added, alone⟩ | ⟨before, g, after, rfl, skipped, fits, added⟩ :=
    add_cases clock key keys.length groups
  · rw [added]
    exact h.start alone
  · rw [added]
    exact h.join skipped fits

/-- The groups that are formed hold all rows. -/
theorem hold_foldl (clock : Clock) (keys : List (List Value)) :
    Hold clock keys
      (keys.zipIdx.foldl (fun groups (key, i) => KeyGroup.add clock key i groups) []) := by
  induction keys using List.reverseRecOn with
  | nil => exact .nil clock
  | append_singleton keys key ih =>
    rw [List.zipIdx_append, List.foldl_append, Nat.zero_add]
    exact ih.add

end KeyGroup

/-! ## The partition -/

namespace KeyGroup.Hold

variable {groups : List KeyGroup} {g : KeyGroup} {i width : Nat}

theorem leads_iff (h : Hold clock keys groups) (widths : ∀ k ∈ keys, k.length = width)
    (hg : g ∈ groups) (hi : i < keys.length) :
    Leads clock keys g.members i ↔ g.members.headD 0 < i ∧ g.Fits clock keys i := by
  refine and_congr_right fun _ => ?_
  obtain ⟨first, rest, members, leader⟩ := h.leader g hg
  rw [members, Fits, List.getD_eq_getElem _ _ hi, List.headD_cons,
    List.getD_eq_getElem?_getD, leader, Option.getD_some]
  refine (allEquivalent_iff ?_).symm
  rw [widths _ (List.mem_of_getElem? leader), widths _ (List.getElem_mem hi)]

/-- A row is the first of its group or is led by it. -/
theorem first_or_leads (h : Hold clock keys groups) (widths : ∀ k ∈ keys, k.length = width)
    (hg : g ∈ groups) (hi : i ∈ g.members) :
    g.members.head? = some i ∨ Leads clock keys g.members i := by
  obtain ⟨first, rest, members, -⟩ := h.leader g hg
  rw [h.leads_iff widths hg (h.lt hg hi)]
  have led := h.led g hg i hi
  have ascending := h.ascending g hg
  rw [members] at led ascending hi ⊢
  obtain rfl | later := List.mem_cons.mp hi
  · exact .inl rfl
  · have lt := (List.pairwise_cons.mp ascending).1 i later
    obtain rfl | fits := led
    · exact .inl rfl
    · exact .inr ⟨lt, fits⟩

theorem exists_group (h : Hold clock keys groups) (hi : i < keys.length) :
    ∃ g ∈ groups, i ∈ g.members :=
  List.mem_flatMap.mp (h.perm.symm.subset (List.mem_range.mpr hi))

theorem joins (h : Hold clock keys groups) (widths : ∀ k ∈ keys, k.length = width)
    {before after : List KeyGroup} (split : groups = before ++ g :: after) (hi : i < keys.length)
    (skipped : ∀ earlier ∈ before, ¬ Leads clock keys earlier.members i)
    (leads : Leads clock keys g.members i) : i ∈ g.members := by
  have hg : g ∈ groups := by simp [split]
  obtain ⟨f, hf, member⟩ := h.exists_group hi
  obtain ⟨-, fits⟩ := (h.leads_iff widths hg hi).mp leads
  have firsts := h.firsts
  have skips := h.skips
  have cases := hf
  rw [split] at firsts skips cases
  rw [List.pairwise_append, List.pairwise_cons] at firsts skips
  rw [List.mem_append, List.mem_cons] at cases
  obtain earlier | rfl | later := cases
  · -- the first row of an earlier group comes before the first row of this one
    obtain first | led := h.first_or_leads widths hf member
    · have lt := firsts.2.2 f earlier g (List.mem_cons_self ..)
      rw [List.headD_eq_head?_getD, first] at lt
      exact absurd (Nat.lt_trans lt leads.1) (Nat.lt_irrefl i)
    · exact absurd led (skipped f earlier)
  · exact member
  · exact absurd fits (skips.2.1.1 f later i member)

theorem starts (h : Hold clock keys groups) (widths : ∀ k ∈ keys, k.length = width)
    (hi : i < keys.length) (alone : ∀ g ∈ groups, ¬ Leads clock keys g.members i) :
    ∃ g ∈ groups, g.members.head? = some i := by
  obtain ⟨g, hg, member⟩ := h.exists_group hi
  obtain first | leads := h.first_or_leads widths hg member
  · exact ⟨g, hg, first⟩
  · exact absurd leads (alone g hg)

end KeyGroup.Hold

/-- Rows with keys of one width are partitioned. -/
theorem groupIndices_partition {width : Nat} (widths : ∀ k ∈ keys, k.length = width) :
    KeyPartition clock keys (groupIndices clock keys) := by
  have hold := KeyGroup.hold_foldl clock keys
  unfold groupIndices
  generalize keys.zipIdx.foldl (fun groups (key, i) => KeyGroup.add clock key i groups) [] = groups
    at hold
  constructor
  · exact hold.perm
  · refine List.forall_mem_map.mpr fun g hg => ?_
    obtain ⟨first, rest, members, -⟩ := hold.leader g hg
    rw [members]
    exact List.cons_ne_nil first rest
  · exact List.forall_mem_map.mpr hold.ascending
  · rw [List.pairwise_map, List.pairwise_map]
    exact hold.firsts
  · intro before group after split i hi skipped leads
    obtain ⟨before, rest, rfl, rfl, tail⟩ := List.map_eq_append_iff.mp split
    obtain ⟨g, after, rfl, rfl, rfl⟩ := List.map_eq_cons_iff.mp tail
    exact hold.joins widths rfl hi (fun f hf => skipped _ (List.mem_map_of_mem hf)) leads
  · intro i hi alone
    obtain ⟨g, hg, first⟩ := hold.starts widths hi fun g hg => alone _ (List.mem_map_of_mem hg)
    exact ⟨g.members, List.mem_map_of_mem hg, first⟩

end TableQuery
