import CrossMesh.Mesh

/-!
# Communication groups

A group is a channel between ranks in a fixed order: the same ranks in another order, or for another kind of
communication, are another group.  A table of groups answers a request with the group it made for the first request
of the same ranks and kind, and numbers groups from one in the order they are made.
-/

namespace CrossMesh

inductive GroupKind
  | pointToPoint
  | collective
  deriving DecidableEq

def GroupKind.name : GroupKind → String
  | pointToPoint => "p2p"
  | collective => "collective"

structure RankGroup where
  id : Nat
  /-- The members, in the order that gives them their places. -/
  ranks : List Rank
  kind : GroupKind
  deriving DecidableEq

/-- The place of a rank among the members. -/
def RankGroup.localRank? (g : RankGroup) (rank : Rank) : Option Nat := g.ranks.idxOf? rank

structure Groups where
  /-- The groups, in the order they were made. -/
  toList : List RankGroup := []
  /-- The number of the next group. -/
  nextId : Nat := 1
  deriving DecidableEq

namespace Groups

/-- The group of these ranks and this kind, if it was made. -/
def find? (t : Groups) (ranks : List Rank) (kind : GroupKind) : Option RankGroup :=
  t.toList.find? fun g => g.ranks = ranks ∧ g.kind = kind

/-- Makes the next group. -/
def create (t : Groups) (ranks : List Rank) (kind : GroupKind) : RankGroup × Groups :=
  let g : RankGroup := { id := t.nextId, ranks, kind }
  (g, { toList := t.toList ++ [g], nextId := t.nextId + 1 })

/-- The group of these ranks and this kind, made if it was not there. -/
def request (t : Groups) (ranks : List Rank) (kind : GroupKind) : RankGroup × Groups :=
  match t.find? ranks kind with
  | some g => (g, t)
  | none => t.create ranks kind

def size (t : Groups) : Nat := t.toList.length

end Groups

end CrossMesh
