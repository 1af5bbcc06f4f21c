/-!
# Lists in messages

How a message writes a list: its items between brackets, separated by a comma and a space.
-/

namespace CrossMesh

/-- The items between brackets. -/
def listText (items : List String) : String :=
  "[" ++ ", ".intercalate items ++ "]"

def numbersText (numbers : List Nat) : String :=
  listText (numbers.map toString)

def pairsText (pairs : List (Nat × Nat)) : String :=
  listText (pairs.map fun p => "(" ++ toString p.1 ++ ", " ++ toString p.2 ++ ")")

end CrossMesh
