import Mathlib.Algebra.Ring.Int.Defs
import TableQuery.Proofs.Session.CursorActions

/-!
# Where the moves of a cursor lead

A move leads to a target, which is cut to the places where a cursor can stand. The target is computed
in 64-bit integers before it is cut. From a place in reach of the rows that is exact for every move
but a relative one by a very large distance: its target wraps, and the cursor ends up at the other
end of its rows.
-/

namespace TableQuery

namespace OpenCursor

variable {c : OpenCursor} {position : FetchPosition} {rows : List (List Value)}

/-! ## Exact targets -/

/-- Where a move from a place leads, as an integer without bounds. -/
def exactTarget (count : Nat) (place : Int) : FetchPosition → Int
  | .next => place + 1
  | .prior => place - 1
  | .first => 0
  | .last => count - 1
  | .absolute n => n.toInt
  | .relative n => place + n.toInt

/-- Where a move of the cursor leads, as an integer without bounds. -/
def exact (c : OpenCursor) (position : FetchPosition) : Int :=
  exactTarget c.rows.length c.index.toInt position

/-- The target of the move is no integer of 64 bits. -/
def Overflows (c : OpenCursor) (position : FetchPosition) : Prop :=
  c.exact position < -2 ^ 63 ∨ 2 ^ 63 ≤ c.exact position

/-- The place at which a cursor stands that is sent to a target. -/
def placeAt (count : Nat) (target : Int) : Int :=
  max (-1) (min target count)

/-- The row at a target, which may be outside the rows. -/
def rowAt (rows : List (List Value)) (target : Int) : Option (List Value) :=
  if target < 0 then none else rows[target.toNat]?

/-- The move does what its exact target says. -/
structure MovesExactly (c : OpenCursor) (position : FetchPosition) : Prop where
  place : (c.fetch position).1.index.toInt = placeAt c.rows.length (c.exact position)
  row : (c.fetch position).2 = rowAt c.rows (c.exact position)

theorem isSome_rowAt (rows : List (List Value)) (target : Int) :
    (rowAt rows target).isSome = true ↔ 0 ≤ target ∧ target < rows.length := by
  unfold rowAt
  split
  · rw [Option.isSome_none]
    exact ⟨nofun, fun inside => by omega⟩
  · rw [isSome_getElem?, decide_eq_true_eq]
    omega

/-! ## One move -/

theorem toInt_bounds (n : Int64) : -2 ^ 63 ≤ n.toInt ∧ n.toInt < 2 ^ 63 :=
  ⟨n.le_toInt, n.toInt_lt⟩

/-- The target of a move is its exact target, reduced to 64 bits. -/
theorem toInt_target (fits : Fits c.rows) (position : FetchPosition) :
    (c.target position).toInt = (c.exact position).bmod (2 ^ 64) := by
  cases position with
  | next => exact Int64.toInt_add ..
  | prior => exact Int64.toInt_sub ..
  | first => rfl
  | last =>
    show (Int64.ofNat c.rows.length - 1).toInt = _
    rw [Int64.toInt_sub, toInt_count fits]
    rfl
  | absolute n =>
    obtain ⟨low, high⟩ := toInt_bounds n
    show n.toInt = n.toInt.bmod (2 ^ 64)
    exact (Int.bmod_eq_of_le (by omega) (by omega)).symm
  | relative n => exact Int64.toInt_add ..

/-- Only a relative move can overflow: one far ahead from a place behind the first row, or the one
farthest back from the place before it. -/
theorem overflows_iff (placed : c.Placed) (fits : Fits c.rows) : c.Overflows position ↔
    ∃ n, position = .relative n ∧ (0 < c.index.toInt ∧ 2 ^ 63 ≤ c.index.toInt + n.toInt ∨
      c.index.toInt = -1 ∧ n.toInt = -2 ^ 63) := by
  obtain ⟨low, high⟩ := placed
  have count : c.rows.length < 2 ^ 63 - 1 := fits
  constructor
  · intro beyond
    cases position with
    | relative n =>
      obtain ⟨least, most⟩ := toInt_bounds n
      have beyond : c.index.toInt + n.toInt < -2 ^ 63 ∨ 2 ^ 63 ≤ c.index.toInt + n.toInt := beyond
      exact ⟨n, rfl, by omega⟩
    | next =>
      have beyond : c.index.toInt + 1 < -2 ^ 63 ∨ 2 ^ 63 ≤ c.index.toInt + 1 := beyond
      omega
    | prior =>
      have beyond : c.index.toInt - 1 < -2 ^ 63 ∨ 2 ^ 63 ≤ c.index.toInt - 1 := beyond
      omega
    | first =>
      have beyond : (0 : Int) < -2 ^ 63 ∨ (2 : Int) ^ 63 ≤ 0 := beyond
      omega
    | last =>
      have beyond : (c.rows.length : Int) - 1 < -2 ^ 63 ∨ 2 ^ 63 ≤ (c.rows.length : Int) - 1 := beyond
      omega
    | absolute n =>
      obtain ⟨least, most⟩ := toInt_bounds n
      have beyond : n.toInt < -2 ^ 63 ∨ 2 ^ 63 ≤ n.toInt := beyond
      omega
  · rintro ⟨n, rfl, far⟩
    show c.index.toInt + n.toInt < -2 ^ 63 ∨ 2 ^ 63 ≤ c.index.toInt + n.toInt
    omega

/-- Without an overflow the target is exact. -/
theorem toInt_target_eq_iff (fits : Fits c.rows) (position : FetchPosition) :
    (c.target position).toInt = c.exact position ↔ ¬ c.Overflows position := by
  obtain ⟨low, high⟩ := toInt_bounds (c.target position)
  constructor
  · intro same beyond
    unfold Overflows at beyond
    omega
  · intro within
    unfold Overflows at within
    rw [toInt_target fits]
    exact Int.bmod_eq_of_le (by omega) (by omega)

theorem movesExactly_of_not_overflows (fits : Fits c.rows) (within : ¬ c.Overflows position) :
    c.MovesExactly position := by
  have target := (toInt_target_eq_iff fits position).mpr within
  refine ⟨?_, ?_⟩
  · rw [index_fetch fits, target, placeAt]
  · rw [row_fetch fits, target, rowAt]

/-- A move that overflows gives no row and sends the cursor to the end from which it should lead
away. -/
theorem fetch_of_overflows (placed : c.Placed) (fits : Fits c.rows) (beyond : c.Overflows position) :
    (c.fetch position).2 = none ∧ (c.fetch position).1.index.toInt =
      if 0 < c.exact position then (-1 : Int) else c.rows.length := by
  have count : c.rows.length < 2 ^ 63 - 1 := fits
  obtain ⟨n, rfl, far⟩ := (overflows_iff placed fits).mp beyond
  obtain ⟨low, high⟩ := placed
  obtain ⟨least, most⟩ := toInt_bounds n
  have exact_eq : c.exact (.relative n) = c.index.toInt + n.toInt := rfl
  have target := toInt_target fits (.relative n)
  have row := row_fetch fits (.relative n)
  have place := index_fetch fits (.relative n)
  obtain ahead | back := far
  · -- ahead of all integers, the target wraps to one below the first row
    have wrapped : (c.target (.relative n)).toInt = c.index.toInt + n.toInt - 2 ^ 64 := by
      rw [target, exact_eq, ← Int.sub_bmod_right]
      exact Int.bmod_eq_of_le (by omega) (by omega)
    rw [row, place, wrapped, if_pos (by omega), if_pos (by omega)]
    exact ⟨rfl, by omega⟩
  · -- below all integers, it wraps to the largest one
    have wrapped : (c.target (.relative n)).toInt = c.index.toInt + n.toInt + 2 ^ 64 := by
      rw [target, exact_eq, ← Int.add_bmod_right]
      exact Int.bmod_eq_of_le (by omega) (by omega)
    rw [row, place, wrapped, if_neg (by omega), if_neg (by omega)]
    exact ⟨List.getElem?_eq_none (by omega), by omega⟩

theorem movesExactly_iff (placed : c.Placed) (fits : Fits c.rows) :
    c.MovesExactly position ↔ ¬ c.Overflows position := by
  refine ⟨fun exactly beyond => ?_, movesExactly_of_not_overflows fits⟩
  have count : c.rows.length < 2 ^ 63 - 1 := fits
  have place := exactly.place.symm.trans (fetch_of_overflows placed fits beyond).2
  obtain ⟨n, rfl, far⟩ := (overflows_iff placed fits).mp beyond
  obtain ⟨low, high⟩ := placed
  have exact_eq : c.exact (.relative n) = c.index.toInt + n.toInt := rfl
  unfold placeAt at place
  split at place <;> omega

/-! ## Moves one after the other -/

/-- The places and rows to which moves lead one after the other, in integers without bounds. -/
def exactMoves (rows : List (List Value)) (place : Int) :
    List FetchPosition → Int × List (Option (List Value))
  | [] => (place, [])
  | position :: positions =>
    let target := exactTarget rows.length place position
    let (last, given) := exactMoves rows (placeAt rows.length target) positions
    (last, rowAt rows target :: given)

/-- A distance that overflows from no place of a cursor over the rows. -/
def Near (rows : List (List Value)) (n : Int64) : Prop :=
  -2 ^ 63 < n.toInt ∧ n.toInt + rows.length < 2 ^ 63

/-- As long as all distances are near, a cursor goes where the exact targets lead. -/
theorem moves_eq_exactMoves (placed : c.Placed) (fits : Fits c.rows)
    {positions : List FetchPosition} (near : ∀ n, .relative n ∈ positions → Near c.rows n) :
    ((c.moves positions).1.index.toInt, (c.moves positions).2) =
      exactMoves c.rows c.index.toInt positions := by
  induction positions generalizing c with
  | nil => rfl
  | cons position positions ih =>
    have within : ¬ c.Overflows position := by
      intro beyond
      obtain ⟨n, rfl, far⟩ := (overflows_iff placed fits).mp beyond
      have close : Near c.rows n := near n (List.mem_cons_self ..)
      obtain ⟨back, ahead⟩ := close
      have high := placed.high
      omega
    have exactly := movesExactly_of_not_overflows fits within
    have rest := ih (c := (c.fetch position).1) (placed_fetch fits position)
      (by rwa [rows_fetch]) (by
        rw [rows_fetch]
        exact fun n mem => near n (List.mem_cons_of_mem _ mem))
    rw [rows_fetch, exactly.place] at rest
    have first := exactly.row
    unfold exact at rest first
    rw [moves, exactMoves, ← rest, ← first]

end OpenCursor

/-! ## Cursors of a session -/

/-- A fetch answers with the row of the move, and leaves the cursor where the move put it. -/
theorem Session.exec_fetchCursor_of_open {engine : Engine} {s : Session} {name : String}
    {cursor : Cursor} {c : OpenCursor} (hosts : engine.Hosts s)
    (found : (engine.scope s).cursor name = .ok cursor) (isOpen : cursor.state? = some c)
    (position : FetchPosition) : ∃ changed moved,
      Run.exec (s.fetchCursor name position) engine = (.ok (c.fetch position).2, changed) ∧
      (changed.scope s).cursor name = .ok moved ∧ moved.state? = some (c.fetch position).1 := by
  obtain ⟨i, holds, -⟩ := Engine.cursor_eq_ok_iff.mp found
  obtain ⟨scope, updated, changed⟩ := Engine.setCursor_changes hosts holds
    (cursor.withState (c.fetch position).1)
  refine ⟨engine.setScope s scope, _, ?_, changed.cursor_eq_ok holds, ?_⟩
  · rw [exec_fetchCursor, Scope.fetchCursor_of_open found isOpen updated]
  · cases cursor <;> rfl

/-- Fetching moves exactly, as long as the target of the move is an integer of 64 bits: the cursor
stands at the target, cut to the places from -1 to the number of rows, and the row at the target is
given if there is one. A relative move whose target is none gives no row and leads to the other end.
Any move leaves the cursor at one of its places, so this goes on over all moves of a session. -/
theorem fetch_exact_iff {c : OpenCursor} (placed : c.Placed) (fits : OpenCursor.Fits c.rows)
    (position : FetchPosition) :
    (c.MovesExactly position ↔ ¬ c.Overflows position) ∧
    ((c.target position).toInt = c.exact position ↔ ¬ c.Overflows position) ∧
    (c.MovesExactly position → ((c.fetch position).2.isSome = true ↔
      0 ≤ c.exact position ∧ c.exact position < c.rows.length)) ∧
    (c.Overflows position ↔ ∃ n, position = .relative n ∧
      (0 < c.index.toInt ∧ 2 ^ 63 ≤ c.index.toInt + n.toInt ∨
        c.index.toInt = -1 ∧ n.toInt = -2 ^ 63)) ∧
    (c.Overflows position → (c.fetch position).2 = none ∧ (c.fetch position).1.index.toInt =
      if 0 < c.exact position then (-1 : Int) else c.rows.length) ∧
    ((c.fetch position).1.Placed ∧ (c.fetch position).1.rows = c.rows) ∧
    (∀ positions, (∀ n, .relative n ∈ positions → OpenCursor.Near c.rows n) →
      ((c.moves positions).1.index.toInt, (c.moves positions).2) =
        OpenCursor.exactMoves c.rows c.index.toInt positions) ∧
    ∀ (engine : Engine) (s : Session) (name : String) (cursor : Cursor), engine.Hosts s →
      (engine.scope s).cursor name = .ok cursor → cursor.state? = some c → ∃ changed moved,
        Run.exec (s.fetchCursor name position) engine = (.ok (c.fetch position).2, changed) ∧
        (changed.scope s).cursor name = .ok moved ∧ moved.state? = some (c.fetch position).1 := by
  refine ⟨OpenCursor.movesExactly_iff placed fits, OpenCursor.toInt_target_eq_iff fits position,
    fun exactly => ?_, OpenCursor.overflows_iff placed fits,
    OpenCursor.fetch_of_overflows placed fits, ?_, fun positions near => ?_,
    fun engine s name cursor hosts found isOpen => ?_⟩
  · rw [exactly.row]
    exact OpenCursor.isSome_rowAt ..
  · exact ⟨OpenCursor.placed_fetch fits position, OpenCursor.rows_fetch c position⟩
  · exact OpenCursor.moves_eq_exactMoves placed fits near
  · exact Session.exec_fetchCursor_of_open hosts found isOpen position

/-- From the last of two rows the farthest relative move leads back before the first one. -/
theorem fetch_exact_iff_wrapped :
    let c : OpenCursor := { rows := [[.integer 1], [.integer 2]], index := 1, fetched := true }
    c.Overflows (.relative Int64.maxValue) ∧ ¬ c.MovesExactly (.relative Int64.maxValue) ∧
      (c.fetch (.relative Int64.maxValue)).1.index.toInt = -1 ∧
      ((c.fetch (.relative Int64.maxValue)).1.fetch .prior).2 = none := by
  intro c
  have placed : c.Placed := ⟨by decide, by decide⟩
  have fits : OpenCursor.Fits c.rows := by
    show 2 < 2 ^ 63 - 1
    decide
  obtain ⟨exactly, -, -, overflows, wraps, -⟩ :=
    fetch_exact_iff placed fits (.relative Int64.maxValue)
  have beyond := overflows.mpr ⟨_, rfl, .inl ⟨by decide, by decide⟩⟩
  exact ⟨beyond, fun moves => exactly.mp moves beyond, (wraps beyond).2.trans (if_pos (by decide)),
    by decide +kernel⟩

end TableQuery
