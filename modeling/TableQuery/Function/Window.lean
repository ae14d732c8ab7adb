import TableQuery.Error
import TableQuery.Value.SortKey

/-!
# Window functions

The functions that give each member of a partition a value that depends on the other members.
Members whose sort keys tie with those of the member before are its peers.
-/

namespace TableQuery

/-- The functions that are only called with `OVER`. -/
inductive WindowFunction where
  | rowNumber | rank | denseRank | cumeDist | percentRank
  | ntile
  | firstValue | lastValue
  | lag | lead
  deriving DecidableEq, Repr

namespace WindowFunction

def name : WindowFunction → String
  | rowNumber => "ROW_NUMBER"
  | rank => "RANK"
  | denseRank => "DENSE_RANK"
  | cumeDist => "CUME_DIST"
  | percentRank => "PERCENT_RANK"
  | ntile => "NTILE"
  | firstValue => "FIRST_VALUE"
  | lastValue => "LAST_VALUE"
  | lag => "LAG"
  | lead => "LEAD"

/-- All window functions. -/
def every : List WindowFunction := [
  rowNumber, rank, denseRank, cumeDist, percentRank, ntile, firstValue, lastValue, lag, lead]

/-- The window function of a name in any case. -/
def ofName? (name : String) : Option WindowFunction :=
  let upper := Text.upper name
  every.find? fun f => f.name == upper

def arity : WindowFunction → Arity
  | rowNumber | rank | denseRank | cumeDist | percentRank => .exactly 0
  | ntile | firstValue | lastValue => .exactly 1
  | lag | lead => .between 1 3

end WindowFunction

/-! ## Peers -/

/-- For each member after `last`, whether its keys tie with those of the member before. -/
def peersAfter (last : List SortKey) : List (List SortKey) → List Bool
  | [] => []
  | key :: keys => SortKey.tupleTies key last :: peersAfter key keys

/-- For each member, whether it is a peer of the one before. The first one is not. -/
def peers : List (List SortKey) → List Bool
  | [] => []
  | key :: keys => false :: peersAfter key keys

/-- The index of the last peer of a member. -/
def lastPeer (flags : List Bool) (i : Nat) : Nat :=
  i + ((flags.drop (i + 1)).takeWhile id).length

/-- The ordinals of the members, where peers share that of the first of them. -/
def ranksFrom (index rank : Nat) : List Bool → List Nat
  | [] => []
  | peer :: flags =>
    let rank := if peer then rank else index + 1
    rank :: ranksFrom (index + 1) rank flags

/-- The place of each member's first peer, counted from one. -/
def ranks (flags : List Bool) : List Nat :=
  ranksFrom 0 0 flags

/-- The ordinals of the runs of peers in which the members are. -/
def denseRanksFrom (rank : Nat) : List Bool → List Nat
  | [] => []
  | peer :: flags =>
    let rank := if peer then rank else rank + 1
    rank :: denseRanksFrom rank flags

/-- The number of each member's run of peers, counted from one. -/
def denseRanks (flags : List Bool) : List Nat :=
  denseRanksFrom 0 flags

/-- The share of the members that are not after a member. -/
def cumulativeShares (flags : List Bool) : List Float :=
  (List.range flags.length).map fun i =>
    Float.ofNat (lastPeer flags i + 1) / Float.ofNat flags.length

/-- The share of the other members that are before a member and its peers. -/
def rankShares (flags : List Bool) : List Float :=
  (ranks flags).map fun rank =>
    if flags.length ≤ 1 then 1 else Float.ofNat (rank - 1) / Float.ofNat (flags.length - 1)

/-! ## Tiles -/

/-- The tile that is being filled: how many members it has, and how many tiles may still take one
member more than the others. -/
structure TileState where
  tile : Nat := 1
  count : Nat := 0
  remainder : Nat

/-- Puts one more member into a tile of `perTile` members, or one more, or else into the next one.
-/
def TileState.next (perTile : Nat) (s : TileState) : TileState :=
  if s.count < perTile then { s with count := s.count + 1 }
  else if s.count == perTile && 0 < s.remainder then
    { s with count := s.count + 1, remainder := s.remainder - 1 }
  else { s with tile := s.tile + 1, count := 1 }

/-- The tiles of the next members. -/
def tilesFrom (perTile : Nat) (s : TileState) : (members : Nat) → List Nat
  | 0 => []
  | members + 1 =>
    let s := s.next perTile
    s.tile :: tilesFrom perTile s members

/-- Spreads members over tiles; the first ones take the remainder. With more tiles than members each
member has a tile of its own. -/
def tileNumbers (tiles members : Nat) : List Nat :=
  let perTile := members / tiles
  if perTile < 1 then tilesFrom 1 { remainder := 0 } members
  else tilesFrom perTile { remainder := members % tiles } members

/-! ## Neighbours -/

/-- The values that stand `offset` places before each member; negative offsets find none. -/
def lagValues (offset : Int64) (default : Value) (vs : List Value) : List Value :=
  vs.mapIdx fun i _ =>
    if 0 ≤ offset && offset.toInt ≤ i then vs.getD (i - offset.toInt.toNat) default else default

/-- The values that stand `offset` places after each member; negative offsets find none. -/
def leadValues (offset : Int64) (default : Value) (vs : List Value) : List Value :=
  vs.mapIdx fun i _ =>
    if 0 ≤ offset then vs.getD (i + offset.toInt.toNat) default else default

end TableQuery
