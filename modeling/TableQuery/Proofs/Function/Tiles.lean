import Mathlib.Data.List.Chain
import Mathlib.Tactic.Ring
import TableQuery.Evaluation.Meaning
import TableQuery.Proofs.Evaluation.Run

/-!
# Tiles

`NTILE` fills one tile after the other. A tile takes one member more than the quotient as long as
some of the remainder is left, so the first tiles take the remainder and the last one is full when
the members are used up. With fewer members than tiles each member has a tile of its own.
-/

namespace TableQuery

open Eval

variable {perTile tile count remainder members : Nat}

/-! ## One more member -/

/-- A member goes into the tile that is being filled or into the next one. -/
theorem TileState.tile_next (perTile : Nat) (s : TileState) :
    (s.next perTile).tile = s.tile ∨ (s.next perTile).tile = s.tile + 1 := by
  unfold next
  split
  · exact .inl rfl
  · split
    · exact .inl rfl
    · exact .inr rfl

/-- The tiles never decrease and never rise by more than one. -/
theorem tilesFrom_chain (s : TileState) (members : Nat) :
    (s.tile :: tilesFrom perTile s members).IsChain fun a b => a ≤ b ∧ b ≤ a + 1 := by
  induction members generalizing s with
  | zero => exact .singleton _
  | succ members ih =>
    rw [tilesFrom]
    refine .cons_cons ?_ (ih _)
    have step := s.tile_next perTile
    omega

theorem length_tilesFrom (s : TileState) (members : Nat) :
    (tilesFrom perTile s members).length = members := by
  induction members generalizing s with
  | zero => rfl
  | succ members ih => rw [tilesFrom, List.length_cons, ih]

/-! ## Full tiles -/

theorem TileState.next_of_room (room : count < perTile) :
    next perTile ⟨tile, count, remainder⟩ = ⟨tile, count + 1, remainder⟩ :=
  if_pos room

/-- As long as there is room in a tile, members go into it. -/
theorem tilesFrom_fill (more : Nat) (room : count + more ≤ perTile) (members : Nat) :
    tilesFrom perTile ⟨tile, count, remainder⟩ (more + members) =
      List.replicate more tile ++ tilesFrom perTile ⟨tile, count + more, remainder⟩ members := by
  induction more generalizing count with
  | zero => rw [Nat.zero_add]; rfl
  | succ more ih =>
    have left : count + 1 + more ≤ perTile := by omega
    have next := ih left
    rw [Nat.add_right_comm, tilesFrom, TileState.next_of_room (by omega), next,
      List.replicate_succ, List.cons_append, Nat.add_assoc, Nat.add_comm 1]

/-- A full tile is followed by the next one, which is empty. -/
theorem tilesFrom_full (positive : 0 < perTile)
    (full : count = perTile ∧ remainder = 0 ∨ count = perTile + 1) (members : Nat) :
    tilesFrom perTile ⟨tile, count, remainder⟩ members =
      tilesFrom perTile ⟨tile + 1, 0, remainder⟩ members := by
  cases members with
  | zero => rfl
  | succ members =>
    have step : TileState.next perTile ⟨tile, count, remainder⟩ = ⟨tile + 1, 1, remainder⟩ := by
      obtain ⟨rfl, rfl⟩ | rfl := full <;> simp [TileState.next]
    rw [tilesFrom, tilesFrom, step, TileState.next_of_room positive]

/-- A tile of the usual size, when nothing of the remainder is left. -/
theorem tilesFrom_usual (positive : 0 < perTile) (members : Nat) :
    tilesFrom perTile ⟨tile, 0, 0⟩ (perTile + members) =
      List.replicate perTile tile ++ tilesFrom perTile ⟨tile + 1, 0, 0⟩ members := by
  rw [tilesFrom_fill perTile (by omega), tilesFrom_full positive (by omega)]

/-- A tile that takes one of the remainder. -/
theorem tilesFrom_larger (positive : 0 < perTile) (members : Nat) :
    tilesFrom perTile ⟨tile, 0, remainder + 1⟩ (perTile + 1 + members) =
      List.replicate (perTile + 1) tile ++
        tilesFrom perTile ⟨tile + 1, 0, remainder⟩ members := by
  have step : TileState.next perTile ⟨tile, perTile, remainder + 1⟩ =
      ⟨tile, perTile + 1, remainder⟩ := by
    simp [TileState.next]
  rw [Nat.add_assoc, tilesFrom_fill perTile (by omega), Nat.zero_add, Nat.add_comm 1, tilesFrom,
    step, tilesFrom_full positive (.inr rfl), List.replicate_succ', List.append_assoc]
  rfl

/-! ## All tiles -/

/-- The tile of each member, if the tiles from `first` on have the given sizes. -/
def tilesOfSizes (first : Nat) : List Nat → List Nat
  | [] => []
  | size :: sizes => List.replicate size first ++ tilesOfSizes (first + 1) sizes

theorem tilesFrom_eq (positive : 0 < perTile) (tile remainder rest : Nat) :
    tilesFrom perTile ⟨tile, 0, remainder⟩ (remainder * (perTile + 1) + rest * perTile) =
      tilesOfSizes tile
        (List.replicate remainder (perTile + 1) ++ List.replicate rest perTile) := by
  induction remainder generalizing tile with
  | zero =>
    induction rest generalizing tile with
    | zero => simp [tilesFrom, tilesOfSizes]
    | succ rest ih =>
      have tail := ih (tile + 1)
      simp only [Nat.zero_mul, Nat.zero_add, List.replicate_zero, List.nil_append] at tail ⊢
      rw [Nat.add_one_mul, Nat.add_comm _ perTile, tilesFrom_usual positive, tail]
      rfl
  | succ remainder ih =>
    rw [Nat.add_one_mul, Nat.add_comm _ (perTile + 1), Nat.add_assoc, tilesFrom_larger positive, ih]
    rfl

theorem count_tilesOfSizes (first : Nat) (sizes : List Nat) (tile : Nat) :
    (tilesOfSizes first sizes).count tile =
      if first ≤ tile then sizes.getD (tile - first) 0 else 0 := by
  induction sizes generalizing first with
  | nil => simp [tilesOfSizes]
  | cons size sizes ih =>
    rw [tilesOfSizes, List.count_append, List.count_replicate, ih]
    rcases Nat.lt_trichotomy first tile with before | rfl | after
    · obtain ⟨d, rfl⟩ : ∃ d, tile = first + (d + 1) := ⟨tile - first - 1, by omega⟩
      have place : first + (d + 1) - (first + 1) = d := by omega
      have place' : first + (d + 1) - first = d + 1 := by omega
      rw [if_neg (by simp), if_pos (by omega), if_pos (by omega), place, place', Nat.zero_add]
      rfl
    · simp
    · rw [if_neg (by simp; omega), if_neg (by omega), if_neg (by omega)]

/-- Tiles of one member each. -/
theorem tilesOfSizes_ones (first n : Nat) :
    tilesOfSizes first (List.replicate n 1) = (List.range n).map (· + first) := by
  induction n generalizing first with
  | zero => rfl
  | succ n ih =>
    rw [List.replicate_succ, tilesOfSizes, ih, List.range_succ_eq_map, List.map_cons, List.map_map]
    simp [Function.comp_def, Nat.add_right_comm, Nat.add_assoc]

/-! ## Spreading members -/

/-- The first tile is empty at first, and there is room in it. -/
theorem exists_tileNumbers_eq (tiles members : Nat) : ∃ perTile remainder, 0 < perTile ∧
    tileNumbers tiles members = tilesFrom perTile ⟨1, 0, remainder⟩ members := by
  unfold tileNumbers
  dsimp only
  split
  · exact ⟨1, 0, Nat.one_pos, rfl⟩
  · exact ⟨_, _, by omega, rfl⟩

theorem head?_tileNumbers (tiles : Nat) (inhabited : 0 < members) :
    (tileNumbers tiles members).head? = some 1 := by
  obtain ⟨perTile, remainder, positive, same⟩ := exists_tileNumbers_eq tiles members
  obtain ⟨n, rfl⟩ : ∃ n, members = n + 1 := ⟨members - 1, by omega⟩
  rw [same, tilesFrom, TileState.next_of_room positive, List.head?_cons]

theorem tileNumbers_of_le {tiles : Nat} (positive : 0 < tiles) (enough : tiles ≤ members) :
    tileNumbers tiles members = tilesOfSizes 1
      (List.replicate (members % tiles) (members / tiles + 1) ++
        List.replicate (tiles - members % tiles) (members / tiles)) := by
  have quotient : 0 < members / tiles := Nat.div_pos enough positive
  have rest : members % tiles < tiles := Nat.mod_lt members positive
  have total : members % tiles * (members / tiles + 1) +
      (tiles - members % tiles) * (members / tiles) = members := by
    conv_rhs => rw [← Nat.div_add_mod members tiles]
    obtain ⟨d, hd⟩ := Nat.exists_eq_add_of_lt rest
    generalize members / tiles = q
    generalize members % tiles = r at hd ⊢
    rw [hd, show r + d + 1 - r = d + 1 by omega]
    ring
  have spread := tilesFrom_eq quotient 1 (members % tiles) (tiles - members % tiles)
  rw [total] at spread
  rw [← spread, tileNumbers]
  exact if_neg (by omega)

theorem tileNumbers_of_lt {tiles : Nat} (few : members < tiles) :
    tileNumbers tiles members = (List.range members).map (· + 1) := by
  have spread := tilesFrom_eq Nat.one_pos 1 0 members
  rw [Nat.zero_mul, Nat.zero_add, Nat.mul_one, List.replicate_zero, List.nil_append,
    tilesOfSizes_ones] at spread
  rw [← spread, tileNumbers, Nat.div_eq_of_lt few]
  rfl

theorem count_tileNumbers {tiles : Nat} (positive : 0 < tiles) (enough : tiles ≤ members)
    (tile : Nat) : (tileNumbers tiles members).count tile =
      if 1 ≤ tile ∧ tile ≤ tiles then
        if tile ≤ members % tiles then members / tiles + 1 else members / tiles
      else 0 := by
  have rest : members % tiles < tiles := Nat.mod_lt members positive
  rw [tileNumbers_of_le positive enough, count_tilesOfSizes]
  simp only [List.getD_eq_getElem?_getD, List.getElem?_append, List.getElem?_replicate,
    List.length_replicate]
  split_ifs <;> first | rfl | omega

/-- Every tile that a member can be in has one. -/
theorem mem_tileNumbers {tiles : Nat} (positive : 0 < tiles) (enough : tiles ≤ members)
    (tile : Nat) : tile ∈ tileNumbers tiles members ↔ 1 ≤ tile ∧ tile ≤ tiles := by
  have quotient : 0 < members / tiles := Nat.div_pos enough positive
  rw [← List.count_pos_iff, count_tileNumbers positive enough]
  split_ifs with inside larger <;> simp [inside, quotient]

/-! ## The window function -/

/-- The tile count is what the argument denotes without any record. -/
theorem exec_evalTileCount {name : String} {o : Operand} {env : Env} {s t : Scope} {v : Value}
    {tiles : Int64} (value : exec (o.eval env.detached) s = (.ok v, t))
    (whole : v.toInteger? = some tiles) (positive : 1 ≤ tiles) :
    exec (evalTileCount name o env) s = (.ok tiles.toInt.toNat, t) := by
  have enough : ¬ tiles < 1 := Int64.not_lt.mpr positive
  rw [evalTileCount, exec_bind_ok value, whole]
  dsimp only
  rw [if_neg enough]
  rfl

/-- `NTILE` gives every member the number of its tile. The numbers start at one and rise one by one.
With enough members there is every tile, and the first ones have one member more than the others, as
many as the division leaves over. With fewer members each has a tile of its own. -/
theorem ntile_balances (name : String) {o : Operand} {env : Env} {s t : Scope} {v : Value}
    {tiles : Int64} (value : exec (o.eval env.detached) s = (.ok v, t))
    (whole : v.toInteger? = some tiles) (positive : 1 ≤ tiles) (p : Partition) :
    let k := tiles.toInt.toNat
    let n := p.members.length
    ∃ numbers : List Nat,
      exec (WindowFunction.ntile.routine name [o] env p) s = (.ok (numbers.map .ofNat), t) ∧
      numbers.length = n ∧
      (0 < n → numbers.head? = some 1) ∧
      numbers.IsChain (fun a b => a ≤ b ∧ b ≤ a + 1) ∧
      (k ≤ n → (∀ j, j ∈ numbers ↔ 1 ≤ j ∧ j ≤ k) ∧
        ∀ j, 1 ≤ j → j ≤ k → numbers.count j = if j ≤ n % k then n / k + 1 else n / k) ∧
      (n < k → numbers = (List.range n).map (· + 1)) := by
  intro k n
  have some_tile : 0 < k := by
    have least : (1 : Int64).toInt ≤ tiles.toInt := Int64.le_iff_toInt_le.mp positive
    have one : (1 : Int64).toInt = 1 := rfl
    omega
  obtain ⟨perTile, remainder, -, same⟩ := exists_tileNumbers_eq k n
  refine ⟨tileNumbers k n, ?_, ?_, head?_tileNumbers k, ?_, fun enough => ⟨?_, ?_⟩, ?_⟩
  · exact exec_bind_ok (exec_evalTileCount value whole positive) _
  · rw [same, length_tilesFrom]
  · rw [same]
    exact (tilesFrom_chain _ n).tail
  · exact mem_tileNumbers some_tile enough
  · intro j first last
    rw [count_tileNumbers some_tile enough, if_pos ⟨first, last⟩]
  · exact tileNumbers_of_lt

/-- Of five members in two tiles the first tile has three and the second one two. -/
theorem ntile_balances_five :
    let o : Operand := ⟨.literal (.integer 2), fun env => (Expr.literal (.integer 2)).eval env⟩
    let p : Partition := ⟨List.replicate 5 ⟨.ofNames "t" [], .ofValues [], false⟩, []⟩
    ∃ numbers : List Nat,
      exec (WindowFunction.ntile.routine "NTILE" [o] {} p) {} = (.ok (numbers.map .ofNat), {}) ∧
      numbers.length = 5 ∧ numbers.count 1 = 3 ∧ numbers.count 2 = 2 := by
  intro o p
  have value : exec (o.eval (Env.detached {})) {} = (.ok (.integer 2), {}) := rfl
  have whole : (Value.integer 2).toInteger? = some 2 := rfl
  obtain ⟨numbers, run, length, -, -, enough, -⟩ :=
    ntile_balances "NTILE" value whole (by decide) p
  have sizes := (enough (by decide)).2
  have first := sizes 1 (by decide) (by decide)
  have second := sizes 2 (by decide) (by decide)
  exact ⟨numbers, run, length, first.trans (by decide), second.trans (by decide)⟩

end TableQuery
