import CrossMesh.Placement
import CrossMesh.Text.Quoted

/-!
# Placements in messages

The text of a placement in a message: all its parts with their names, on one line.
-/

namespace CrossMesh

/-- A named record with its fields. -/
def recordText (name : String) (fields : List (String × String)) : String :=
  name ++ " \x7b " ++ ", ".intercalate (fields.map fun f => f.1 ++ ": " ++ f.2) ++ " \x7d"

def Mesh.description (mesh : Mesh) : String :=
  recordText "ProcessMesh" [("process_ids", numbersText mesh.ids), ("shape", numbersText mesh.shape),
    ("dims", listText (mesh.axes.map fun axis => recordText "MeshDim" [("name", quoted axis)]))]

/-- The axes between braces. -/
def AxisSet.description (axes : AxisSet) : String := "\x7b" ++ ", ".intercalate (axes.toList.map toString) ++ "\x7d"

def Placement.description (a : Placement) : String :=
  recordText "TensorDistAttr" [("process_mesh", a.mesh.description), ("dims_mapping", listText (a.split.map toString)),
    ("partial_dims", a.pending.description)]

end CrossMesh
