import CrossMesh.Mesh

/-!
# Transfers between two meshes

A value moves between two meshes position by position: the rank at a position of the first mesh sends to the rank at
the same position of the second.  Every worker works its own role out from the same list of pairs, so no message is
needed to agree.  This makes sense only when no rank stands in two pairs, which `clash?` finds out.
-/

namespace CrossMesh

/-- The ranks at the same positions of two meshes. -/
def Mesh.pairsWith (src dst : Mesh) : List (Rank × Rank) := src.ids.zip dst.ids

/-- The first rank of a pair that is among `seen` or in an earlier pair. -/
def clashFrom (seen : List Rank) : List (Rank × Rank) → Option Rank
  | [] => none
  | (src, dst) :: rest =>
    if src ∈ seen then some src
    else if src = dst then clashFrom (src :: seen) rest
    else if dst ∈ seen then some dst
    else clashFrom (dst :: src :: seen) rest

/-- The first rank named by two pairs; a pair of a rank with itself names it once. -/
def clash? (pairs : List (Rank × Rank)) : Option Rank := clashFrom [] pairs

/-- What a rank has to do in a transfer. -/
inductive Role
  | sender (peer : Rank)
  | receiver (peer : Rank)
  /-- The rank keeps the data it has. -/
  | stationary
  | bystander
  deriving DecidableEq

/-- The role a pair gives to a rank, if it names it. -/
def pairRole? (rank : Rank) (pair : Rank × Rank) : Option Role :=
  if pair.1 = rank then some (if pair.2 = rank then .stationary else .sender pair.2)
  else if pair.2 = rank then some (.receiver pair.1)
  else none

/-- The role of a rank, by the first pair that names it. -/
def roleOf (pairs : List (Rank × Rank)) (rank : Rank) : Role :=
  (pairs.findSome? (pairRole? rank)).getD .bystander

/-- Whether `rank` takes part in a pair; without a rank, all pairs count. -/
def Concerns (rank : Option Rank) (pair : Rank × Rank) : Prop :=
  ∀ r ∈ rank, r = pair.1 ∨ r = pair.2

instance (rank : Option Rank) (pair : Rank × Rank) : Decidable (Concerns rank pair) :=
  inferInstanceAs (Decidable (∀ r ∈ rank, r = pair.1 ∨ r = pair.2))

/-- The member lists of the channels of a pair: forward, and backward too if wanted. -/
def pairChannels (eagerReverse : Bool) (pair : Rank × Rank) : List (List Rank) :=
  if eagerReverse then [[pair.1, pair.2], [pair.2, pair.1]] else [[pair.1, pair.2]]

/-- The member lists of the channels of all pairs of two ranks that concern `rank`, in order. -/
def channels (pairs : List (Rank × Rank)) (rank : Option Rank) (eagerReverse : Bool) : List (List Rank) :=
  (pairs.filter fun pair => pair.1 ≠ pair.2 ∧ Concerns rank pair).flatMap (pairChannels eagerReverse)

/-- How a message writes a role. -/
def Role.text : Role → String
  | sender peer => "Sender \x7b peer: " ++ toString peer ++ " \x7d"
  | receiver peer => "Receiver \x7b peer: " ++ toString peer ++ " \x7d"
  | stationary => "Local"
  | bystander => "Bystander"

end CrossMesh
