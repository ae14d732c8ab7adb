import Mathlib.Algebra.Group.Nat.Defs
import TableQuery.Session.Cursor

/-!
# Moving over the rows of a cursor

An open cursor stands at a place from -1 to the number of its rows. Where it stands, whether that is
in range and what its moves gave follow from the rows and the moves since it was opened.

Places are 64-bit integers and wrap. Rows that fit into memory are too few for that to matter, except
for a relative move, which may lead anywhere.
-/

namespace TableQuery

namespace OpenCursor

variable {c : OpenCursor} {position : FetchPosition} {rows : List (List Value)}

/-- So few rows that the place behind the last one is an integer with a successor. -/
def Fits (rows : List (List Value)) : Prop :=
  rows.length < 2 ^ 63 - 1

/-- The cursor stands before the first row, at a row or directly behind the last one. -/
structure Placed (c : OpenCursor) : Prop where
  low : -1 ≤ c.index.toInt
  high : c.index.toInt ≤ c.rows.length

theorem toInt_count (h : Fits rows) : (Int64.ofNat rows.length).toInt = rows.length :=
  Int64.toInt_ofNat_of_lt (Nat.lt_of_lt_of_le h (Nat.sub_le _ _))

/-! ## One move -/

/-- The place to which a move leads is cut to those where a cursor stands. -/
theorem index_fetch (h : Fits c.rows) (position : FetchPosition) :
    (c.fetch position).1.index.toInt = max (-1) (min (c.target position).toInt c.rows.length) := by
  have count := toInt_count h
  unfold fetch
  dsimp only
  simp only [Int64.lt_iff_toInt_lt, Int64.le_iff_toInt_le, count, Int64.toInt_zero]
  split
  · show (-1 : Int) = _
    omega
  · split
    · show (Int64.ofNat c.rows.length).toInt = _
      omega
    · show (c.target position).toInt = _
      omega

/-- A move gives the row at the place to which it leads, if there is one. -/
theorem row_fetch (h : Fits c.rows) (position : FetchPosition) :
    (c.fetch position).2 =
      if (c.target position).toInt < 0 then none else c.rows[(c.target position).toInt.toNat]? := by
  have count := toInt_count h
  unfold fetch
  dsimp only
  simp only [Int64.lt_iff_toInt_lt, Int64.le_iff_toInt_le, count, Int64.toInt_zero]
  split
  · rfl
  · split
    · exact (List.getElem?_eq_none (by omega)).symm
    · rfl

@[simp] theorem rows_fetch (c : OpenCursor) (position : FetchPosition) :
    (c.fetch position).1.rows = c.rows := by
  unfold fetch
  dsimp only
  split
  · rfl
  · split <;> rfl

@[simp] theorem fetched_fetch (c : OpenCursor) (position : FetchPosition) :
    (c.fetch position).1.fetched = true := by
  unfold fetch
  dsimp only
  split
  · rfl
  · split <;> rfl

theorem placed_fetch (h : Fits c.rows) (position : FetchPosition) :
    (c.fetch position).1.Placed where
  low := by
    rw [index_fetch h]
    omega
  high := by
    rw [index_fetch h, rows_fetch]
    omega

theorem isSome_getElem? {α : Type} (xs : List α) (i : Nat) :
    xs[i]?.isSome = decide (i < xs.length) := by
  by_cases h : i < xs.length <;> simp [h]

/-- After a move the cursor is in range exactly if the move gave a row. -/
theorem inRange_fetch (h : Fits c.rows) (position : FetchPosition) :
    (c.fetch position).1.inRange = .ofBool (c.fetch position).2.isSome := by
  have fits : Fits (c.fetch position).1.rows := by rwa [rows_fetch]
  have index := index_fetch h position
  rw [inRange, fetched_fetch, if_pos rfl]
  congr 1
  rw [Bool.eq_iff_iff, Bool.and_eq_true, decide_eq_true_eq, decide_eq_true_eq,
    Int64.le_iff_toInt_le, Int64.lt_iff_toInt_lt, toInt_count fits, rows_fetch, index,
    row_fetch h position, Int64.toInt_zero]
  split
  · rw [Option.isSome_none]
    refine ⟨fun inside => by omega, fun no => by cases no⟩
  · rw [isSome_getElem?, decide_eq_true_eq]
    omega

/-! ## Moves one after the other -/

/-- Moves a cursor several times and gives the rows at its places. -/
def moves (c : OpenCursor) : List FetchPosition → OpenCursor × List (Option (List Value))
  | [] => (c, [])
  | position :: positions =>
    let (last, rows) := (c.fetch position).1.moves positions
    (last, (c.fetch position).2 :: rows)

theorem moves_append (c : OpenCursor) (before after : List FetchPosition) :
    c.moves (before ++ after) =
      (((c.moves before).1.moves after).1, (c.moves before).2 ++ ((c.moves before).1.moves after).2) := by
  induction before generalizing c with
  | nil => rfl
  | cons position before ih => rw [List.cons_append, moves, ih, moves, List.cons_append]

@[simp] theorem rows_moves (c : OpenCursor) (positions : List FetchPosition) :
    (c.moves positions).1.rows = c.rows := by
  induction positions generalizing c with
  | nil => rfl
  | cons position positions ih => exact (ih _).trans (rows_fetch c position)

/-- Whether a cursor is in range, from what its moves gave: open without any, else as the last one
says. -/
def rangeAfter (given : List (Option (List Value))) : Truth :=
  match given.getLast? with
  | none => .unknown
  | some row => .ofBool row.isSome

/-- What holds of a cursor that was opened over rows and then moved. -/
theorem moves_opened (h : Fits rows) (positions : List FetchPosition) :
    let moved := ({ rows } : OpenCursor).moves positions
    moved.1.Placed ∧ moved.1.inRange = rangeAfter moved.2 := by
  dsimp only
  rcases List.eq_nil_or_concat positions with rfl | ⟨before, position, rfl⟩
  · exact ⟨⟨Int.le_refl _, by show (-1 : Int) ≤ _; omega⟩, rfl⟩
  · have fits : Fits (({ rows } : OpenCursor).moves before).1.rows := by rwa [rows_moves]
    rw [List.concat_eq_append, moves_append]
    refine ⟨placed_fetch fits position, ?_⟩
    rw [rangeAfter, moves, moves, List.getLast?_concat]
    exact inRange_fetch fits position

/-- The first moves to the next row give the rows in their order, and all others give none. -/
theorem moves_next (h : Fits rows) (n : Nat) :
    (({ rows } : OpenCursor).moves (List.replicate n .next)).2
        = (List.range n).map (fun k => rows[k]?) ∧
      (({ rows } : OpenCursor).moves (List.replicate n .next)).1.index.toInt
        = min ((n : Int) - 1) rows.length := by
  induction n with
  | zero => exact ⟨rfl, by show (-1 : Int) = _; omega⟩
  | succ n ih =>
    obtain ⟨given, index⟩ := ih
    have fits : Fits (({ rows } : OpenCursor).moves (List.replicate n .next)).1.rows := by
      rwa [rows_moves]
    rw [List.replicate_succ', moves_append]
    have rows_moved : (({ rows } : OpenCursor).moves (List.replicate n .next)).1.rows = rows :=
      rows_moves _ _
    generalize ({ rows } : OpenCursor).moves (List.replicate n .next) = moved
      at given index fits rows_moved ⊢
    have bound : rows.length < 2 ^ 63 - 1 := h
    -- the place after the one behind the last row is still an integer
    have target : (moved.1.target .next).toInt = min ((n : Int) - 1) rows.length + 1 := by
      rw [target, Int64.toInt_add, index, Int64.toInt_one]
      exact Int.bmod_eq_of_le (by omega) (by omega)
    have row := row_fetch fits .next
    have place := index_fetch fits .next
    rw [target, rows_moved] at row place
    rw [moves, moves]
    refine ⟨?_, ?_⟩
    · rw [given, List.range_succ, List.map_append, List.map_singleton]
      refine congrArg (fun r => _ ++ [r]) (row.trans ?_)
      rw [if_neg (by omega)]
      -- behind the last row the place stays, and there is none for the next one either
      by_cases within : n ≤ rows.length
      · rw [show (min ((n : Int) - 1) rows.length + 1).toNat = n by omega]
      · rw [List.getElem?_eq_none (by omega), List.getElem?_eq_none (by omega)]
    · rw [place]
      omega

end OpenCursor

end TableQuery
