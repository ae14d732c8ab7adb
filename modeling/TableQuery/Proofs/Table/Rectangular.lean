import TableQuery.Proofs.Table.Width

/-!
# Rectangular views

A view is rectangular if every record has one cell for each column. Every operation on views keeps
that, although many of them change the header and the records separately.
-/

namespace TableQuery

namespace View

/-- Every record has one cell for each column. -/
def Rectangular (v : View) : Prop :=
  ∀ r ∈ v.records, r.width = v.header.width

variable {v w : View}

theorem dual_rectangular : View.dual.Rectangular := by
  intro r hr
  rw [List.mem_singleton.mp hr]
  rfl

theorem asTable_rectangular (h : v.Rectangular) (table : String) (names : List String) :
    (v.asTable table names).Rectangular := by
  intro r hr
  rw [asTable, Header.width_asTable]
  exact h r hr

theorem ofRows_rectangular {header : Header} {rows : List (List Value)}
    (h : ∀ row ∈ rows, row.length = header.width) : (ofRows header rows).Rectangular := by
  intro r hr
  obtain ⟨row, hrow, rfl⟩ := List.mem_map.mp hr
  rw [Record.width_ofValues]
  exact h row hrow

theorem pushColumn_rectangular (h : v.Rectangular) (c : Column) (values : List Value) :
    (v.pushColumn c values).Rectangular := by
  intro r hr
  obtain ⟨i, hi, hri⟩ := List.mem_iff_getElem.mp hr
  simp only [pushColumn, List.getElem_zipWith] at hri
  have hwidth : (v.pushColumn c values).header.width = v.header.width + 1 :=
    Header.width_push _ _
  rw [← hri, Record.width_push, hwidth, h _ (List.getElem_mem _)]

theorem groupAll_rectangular (v : View) : v.groupAll.Rectangular := by
  intro r hr
  rw [List.mem_singleton.mp hr]
  exact Record.width_group _ _

theorem cross_rectangular (hv : v.Rectangular) (hw : w.Rectangular) :
    (v.cross w).Rectangular := by
  intro r hr
  obtain ⟨a, ha, hr⟩ := List.mem_flatMap.mp hr
  obtain ⟨b, hb, rfl⟩ := List.mem_map.mp hr
  rw [Record.width_append, hv a ha, hw b hb]
  exact (Header.width_append _ _).symm

/-- Records of a rectangular view make a rectangular view. -/
theorem rectangular_of_subset (h : v.Rectangular) {rs : List Record} (hs : rs ⊆ v.records)
    (hw : w.records = rs) (hh : w.header.width = v.header.width) : w.Rectangular := by
  intro r hr
  rw [hh]
  exact h r (hs (hw ▸ hr))

/-! ## Rows as keys -/

theorem uniqueFrom_subset (clock : Calendar.Clock) (seen : List String) (rs : List Record) :
    uniqueFrom clock seen rs ⊆ rs := by
  induction rs generalizing seen with
  | nil => exact List.Subset.refl _
  | cons r rs ih =>
    unfold uniqueFrom
    dsimp only
    split
    · exact List.subset_cons_of_subset _ (ih _)
    · exact List.cons_subset_cons _ (ih _)

theorem subtractAll_subset (clock : Calendar.Clock) (others : List String) (rs : List Record) :
    subtractAll clock others rs ⊆ rs := by
  induction rs generalizing others with
  | nil => exact List.Subset.refl _
  | cons r rs ih =>
    unfold subtractAll
    dsimp only
    split
    · exact List.subset_cons_of_subset _ (ih _)
    · exact List.cons_subset_cons _ (ih _)

theorem commonAll_subset (clock : Calendar.Clock) (others : List String) (rs : List Record) :
    commonAll clock others rs ⊆ rs := by
  induction rs generalizing others with
  | nil => exact List.Subset.refl _
  | cons r rs ih =>
    unfold commonAll
    dsimp only
    split
    · exact List.cons_subset_cons _ (ih _)
    · exact List.subset_cons_of_subset _ (ih _)

/-- A set operation gives records of its sides. -/
theorem combinedRecords_subset (clock : Calendar.Clock) (op : SetOp) (all : Bool)
    (as bs : List Record) : combinedRecords clock op all as bs ⊆ as ++ bs := by
  have left {rs : List Record} (h : rs ⊆ as) : rs ⊆ as ++ bs :=
    List.subset_append_of_subset_left bs h
  have unique (p : Record → Bool) : View.uniqueFrom clock [] (as.filter p) ⊆ as :=
    List.Subset.trans (uniqueFrom_subset _ _ _) List.filter_sublist.subset
  cases op <;> cases all
  · exact uniqueFrom_subset _ _ _
  · exact List.Subset.refl _
  · exact left (unique _)
  · exact left (subtractAll_subset _ _ _)
  · exact left (unique _)
  · exact left (commonAll_subset _ _ _)

/-! ## Well-formed views -/

/-- A rectangular view whose selected columns exist. -/
structure WellFormed (v : View) : Prop where
  rectangular : v.Rectangular
  selected : ∀ indices, v.selected = some indices → ∀ i ∈ indices, i < v.header.width

/-- A finished result: ungrouped, with one cell for each column and one value in each cell. Nothing
is left to be selected from it. -/
structure Flat (v : View) : Prop where
  ungrouped : v.grouped = false
  unselected : v.selected = none
  rectangular : v.Rectangular
  single : ∀ r ∈ v.records, ∀ c ∈ r.cells, c.values.length = 1

/-- A rectangular view from which nothing was selected yet. -/
theorem Rectangular.wellFormed (h : v.Rectangular) (hs : v.selected = none) : v.WellFormed :=
  ⟨h, fun indices hi => by rw [hs] at hi; cases hi⟩

theorem collapse_single (r : Record) : ∀ c ∈ r.collapse.cells, c.values.length = 1 := by
  intro c hc
  obtain ⟨d, -, rfl⟩ := List.mem_map.mp hc
  rfl

/-- What is left of a well-formed view at the end of its query is flat. -/
theorem WellFormed.fix_flat (h : v.WellFormed) : v.fix.Flat := by
  unfold fix
  cases hs : v.selected with
  | none =>
    refine ⟨rfl, rfl, fun r hr => ?_, fun r hr => ?_⟩
    · obtain ⟨q, hq, rfl⟩ := List.mem_map.mp hr
      rw [Record.width_collapse]
      exact h.rectangular q hq
    · obtain ⟨q, -, rfl⟩ := List.mem_map.mp hr
      exact collapse_single q
  | some indices =>
    refine ⟨rfl, rfl, fun r hr => ?_, fun r hr => ?_⟩
    · obtain ⟨q, -, rfl⟩ := List.mem_map.mp hr
      rw [Record.width_collapse, Record.width_project]
      exact (Header.width_project (h.selected indices hs)).symm
    · obtain ⟨q, -, rfl⟩ := List.mem_map.mp hr
      exact collapse_single _

theorem fix_selected (v : View) : v.fix.selected = none := by
  unfold fix
  split <;> rfl

theorem Flat.wellFormed (h : v.Flat) : v.WellFormed :=
  h.rectangular.wellFormed h.unselected

/-- Another choice of the records keeps a view well-formed. -/
theorem WellFormed.of_subset (h : v.WellFormed) (hr : w.records ⊆ v.records)
    (hh : w.header = v.header) (hs : w.selected = v.selected) : w.WellFormed where
  rectangular := rectangular_of_subset h.rectangular hr rfl (congrArg Header.width hh)
  selected indices hi := by
    rw [hh]
    exact h.selected indices (hs ▸ hi)

theorem WellFormed.drop (h : v.WellFormed) (n : Nat) : (v.drop n).WellFormed :=
  h.of_subset (List.drop_subset _ _) rfl rfl

theorem WellFormed.take (h : v.WellFormed) (count : Nat) (ties : Bool) :
    (v.take count ties).WellFormed := by
  unfold View.take
  generalize (if ties then v.sortKeys.elim count fun keys => extendByTies keys count
    else count) = n
  dsimp only
  split
  · exact h.of_subset (List.take_subset _ _) rfl rfl
  · exact h

theorem WellFormed.distinct (h : v.WellFormed) (clock : Calendar.Clock) :
    (v.distinct clock).WellFormed := by
  have valid : ∀ i ∈ v.selected.getD (List.range v.header.width), i < v.header.width := by
    cases hs : v.selected with
    | none => exact fun i hi => List.mem_range.mp hi
    | some indices => exact h.selected indices hs
  have hwidth := Header.width_project valid
  unfold View.distinct
  refine ⟨fun r hr => ?_, fun indices hi => ?_⟩
  · obtain ⟨q, -, rfl⟩ := List.mem_map.mp (uniqueFrom_subset _ _ _ hr)
    rw [Record.width_project]
    exact hwidth.symm
  · cases hi
    intro i hi
    rw [hwidth]
    exact List.mem_range.mp hi

theorem combine_wellFormed {clock : Calendar.Clock} {op : SetOp} {all : Bool} {expression : String}
    {a b c : View} (ha : a.WellFormed) (hb : b.Rectangular)
    (h : View.combine clock op all expression a b = .ok c) : c.WellFormed := by
  unfold View.combine at h
  split at h
  · cases h
  · rename_i hwidth
    cases h
    have hwidth : a.header.width = b.header.width := by simpa using hwidth
    refine ⟨fun r hr => ?_, ha.selected⟩
    rcases List.mem_append.mp (combinedRecords_subset _ _ _ _ _ hr) with hr | hr
    · exact ha.rectangular r hr
    · rw [hb r hr]
      exact hwidth.symm

end View

/-! ## Catalogs -/

/-- The rows of a stored table are as wide as its header. -/
def StoredTable.Regular (t : StoredTable) : Prop :=
  ∀ row ∈ t.rows, row.length = t.columns.length

theorem StoredTable.ofRows_regular {name : String} {columns : List String}
    {rows : List (List Value)} {t : StoredTable} (h : ofRows name columns rows = .ok t) :
    t.Regular := by
  unfold ofRows at h
  split at h
  · cases h
  · rename_i hnone
    cases h
    intro row hrow
    obtain ⟨i, hi⟩ := List.mem_iff_getElem?.mp hrow
    have := List.find?_eq_none.mp hnone (row, i) (List.mem_zipIdx_iff_getElem?.mpr hi)
    simpa using this

theorem StoredTable.view_rectangular {t : StoredTable} (h : t.Regular) (name : String) :
    (t.view name).Rectangular := by
  refine View.ofRows_rectangular fun row hrow => ?_
  rw [Header.width_ofNames]
  exact h row hrow

/-- All tables of a catalog passed the check of their widths. -/
structure Catalog.Regular (c : Catalog) : Prop where
  tables : ∀ entry ∈ c.tables.entries, entry.2.Regular
  stdin : ∀ t ∈ c.stdin, t.Regular

namespace NameMap

variable {α : Type} {m : NameMap α}

/-- What a name means is one of the entries. -/
theorem mem_of_get? {name : String} {a : α} (h : m.get? name = some a) :
    ∃ key, (key, a) ∈ m.entries := by
  unfold get? at h
  generalize m.entries = entries at h ⊢
  induction entries with
  | nil => cases h
  | cons entry entries ih =>
    obtain ⟨key, b⟩ := entry
    rw [List.lookup_cons] at h
    split at h
    · cases h
      exact ⟨key, by simp⟩
    · obtain ⟨key', hk⟩ := ih h
      exact ⟨key', by simp [hk]⟩

theorem mem_of_mem_erase {name : String} {entry : String × α} (h : entry ∈ (m.erase name).entries) :
    entry ∈ m.entries :=
  (List.mem_filter.mp h).1

theorem mem_of_mem_insert {name : String} {a : α} {entry : String × α}
    (h : entry ∈ (m.insert name a).entries) : entry.2 = a ∨ entry ∈ m.entries := by
  rcases List.mem_cons.mp h with rfl | h
  · exact .inl rfl
  · exact .inr (mem_of_mem_erase h)

end NameMap

namespace Catalog

variable {c d : Catalog}

theorem empty_regular : ({} : Catalog).Regular :=
  ⟨fun _ h => (by cases h), fun _ h => (by cases h)⟩

/-- What is made of a table that passed the check of its widths is made of a regular one. -/
theorem exists_regular {name : String} {columns : List String} {rows : List (List Value)}
    {f : StoredTable → Catalog}
    (h : (do return f (← StoredTable.ofRows name columns rows)) = Except.ok d) :
    ∃ t : StoredTable, t.Regular ∧ f t = d := by
  cases checked : StoredTable.ofRows name columns rows with
  | error e =>
    rw [checked] at h
    cases h
  | ok t =>
    rw [checked] at h
    cases h
    exact ⟨t, StoredTable.ofRows_regular checked, rfl⟩

theorem register_regular (hc : c.Regular) {name : String} {columns : List String}
    {rows : List (List Value)} (h : c.register name columns rows = .ok d) : d.Regular := by
  obtain ⟨t, regular, rfl⟩ := exists_regular h
  refine ⟨fun entry he => ?_, hc.stdin⟩
  rcases NameMap.mem_of_mem_insert he with new | old
  · exact new ▸ regular
  · exact hc.tables entry old

theorem setStdin_regular (hc : c.Regular) {columns : List String} {rows : List (List Value)}
    (h : c.setStdin columns rows = .ok d) : d.Regular := by
  obtain ⟨t, regular, rfl⟩ := exists_regular h
  exact ⟨hc.tables, fun u hu => Option.some.inj hu ▸ regular⟩

theorem erase_regular (hc : c.Regular) (name : String) :
    ({ c with tables := c.tables.erase name } : Catalog).Regular :=
  ⟨fun entry he => hc.tables entry (NameMap.mem_of_mem_erase he), hc.stdin⟩

/-- The catalogs that an application can arrive at. -/
inductive Reachable : Catalog → Prop
  | empty : Reachable {}
  | register {c d : Catalog} {name : String} {columns : List String} {rows : List (List Value)}
      (before : Reachable c) (done : c.register name columns rows = .ok d) : Reachable d
  | setStdin {c d : Catalog} {columns : List String} {rows : List (List Value)}
      (before : Reachable c) (done : c.setStdin columns rows = .ok d) : Reachable d
  | erase {c : Catalog} (before : Reachable c) (name : String) :
      Reachable { c with tables := c.tables.erase name }

/-- Whatever an application does to a catalog, the tables in it are as wide as their headers. -/
theorem Reachable.regular (h : c.Reachable) : c.Regular := by
  induction h with
  | empty => exact empty_regular
  | register _ done ih => exact register_regular ih done
  | setStdin _ done ih => exact setStdin_regular ih done
  | erase _ name ih => exact erase_regular ih name

theorem load_rectangular (hc : c.Regular) {name : String} {v : View} (h : c.load name = .ok v) :
    v.Rectangular := by
  unfold load at h
  split at h
  · rename_i t ht
    cases h
    obtain ⟨key, hk⟩ := NameMap.mem_of_get? ht
    exact StoredTable.view_rectangular (hc.tables _ hk) name
  · cases h

theorem loadStdin_rectangular (hc : c.Regular) {v : View} (h : c.loadStdin = .ok v) :
    v.Rectangular := by
  unfold loadStdin at h
  split at h
  · rename_i t ht
    cases h
    exact StoredTable.view_rectangular (hc.stdin t ht) "STDIN"
  · cases h

end Catalog

end TableQuery
