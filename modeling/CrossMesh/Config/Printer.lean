import CrossMesh.Config.Basic
import CrossMesh.Json.Basic

/-!
# Printing settings

The JSON text of settings: one object without blanks, with both members.
-/

namespace CrossMesh

namespace Config

def streamKey : String := "comm_stream"

def eagerKey : String := "eager_reverse_channels"

/-- The compact JSON text of the settings. -/
def json (c : Config) : String :=
  "\x7b\"" ++ streamKey ++ "\":\"" ++ c.stream.name ++ "\",\"" ++ eagerKey ++ "\":" ++
    Json.booleanText c.eagerReverse ++ "\x7d"

end Config

end CrossMesh
