import CrossMesh.Groups
import CrossMesh.Program.Basic
import CrossMesh.Transfer

/-!
# Journal

The events a worker notes while it works, and the line each is logged as.
-/

namespace CrossMesh

inductive Event
  | inserted (op : OpId) (name : String)
  | removed (op : OpId) (name : String)
  | pruned (count : Nat) (rank : Rank)
  | groupCreated (group : RankGroup)
  | groupReused (group : RankGroup)
  | strategyChosen (value : ValueId) (strategy : String)
  /-- A rank stands in two pairs. -/
  | clashed (rank : Rank) (pairs : List (Rank × Rank))
  | roleResolved (rank : Rank) (role : Role) (value : ValueId)
  /-- A rank of a mesh stands in no pair. -/
  | unpaired (rank : Rank) (pairs : List (Rank × Rank))
  | sending (value : ValueId) (peer : Rank) (group : Nat) (chunk : Int)
  | receiving (value : ValueId) (peer : Rank) (group : Nat) (chunk : Int)
  deriving DecidableEq

namespace Event

def level : Event → String
  | inserted .. | removed .. | groupReused .. | sending .. | receiving .. => "TRACE"
  | pruned .. | groupCreated .. | strategyChosen .. | roleResolved .. => "DEBUG"
  | clashed .. | unpaired .. => "WARN"

def groupText (g : RankGroup) : String :=
  g.kind.name ++ " group " ++ toString g.id ++ " for ranks " ++ numbersText g.ranks

def overText (group : Nat) (chunk : Int) : String :=
  " over group " ++ toString group ++ " (chunk " ++ toString chunk ++ ")"

def text : Event → String
  | inserted op name => "Inserting " ++ name ++ " as " ++ op.text
  | removed op name => "Removing " ++ op.text ++ " (" ++ name ++ ")"
  | pruned count rank => "Removed " ++ toString count ++ " operation(s) not executed by rank " ++ toString rank
  | groupCreated g => "Created " ++ groupText g
  | groupReused g => "Reusing " ++ groupText g
  | strategyChosen value strategy => "Resharding " ++ value.text ++ " with " ++ strategy
  | clashed rank pairs => "Rank " ++ toString rank ++ " appears in more than one pair of " ++ pairsText pairs
  | roleResolved rank role value => "Rank " ++ toString rank ++ " resolved to " ++ role.text ++ " for " ++ value.text
  | unpaired rank pairs => "Rank " ++ toString rank ++ " is in a mesh but in no pair of " ++ pairsText pairs
  | sending value peer group chunk =>
    "Sending " ++ value.text ++ " to rank " ++ toString peer ++ overText group chunk
  | receiving value peer group chunk =>
    "Receiving " ++ value.text ++ " from rank " ++ toString peer ++ overText group chunk

/-- The line of an event: its level and its text. -/
def line (e : Event) : String := e.level ++ " " ++ e.text

end Event

end CrossMesh
